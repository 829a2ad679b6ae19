import Tdi.Cli.Dump
import Tdi.Foundation.Settling

/-!
# Reading, deleting and defaulting an entry

The functions of `TdiTable` on one entry besides `add_entry` and `mod_entry`. Each
obtains objects of the driver, makes a call and frees some of what it has obtained. An
entry is read with `_get_key_fields` and `_get_data_fields`, which may raise, as may the
printing of it.
-/
namespace Tdi.Cli

open Foundation HandleEvent

/-- The objects in hand: those of a table, a target, and a key that the caller has passed. -/
inductive Obj where
  | handle (h : Handle)
  | target
  | given
  deriving DecidableEq

namespace Obj

def key : Obj := handle ⟨.key, 0⟩

def data : Obj := handle ⟨.data, 0⟩

def flags : Obj := handle ⟨.flags, 0⟩

end Obj

/-- The exceptions: those of the helpers, and the errors by the functions that raise them. -/
inductive CallFailure where
  | helper (failure : Failure)
  | dataAllocate (sts : TdiStatus)
  | setDefaultEntry (sts : TdiStatus)
  | resetDefaultEntry (sts : TdiStatus)
  | getDefaultEntry (sts : TdiStatus)
  | entryDelete (sts : TdiStatus)
  | deletingByHandle
  | gettingByHandle
  | keyContentAndHandle

abbrev CallRun := Traced CallFailure (HandleEvent Obj)

/-- A helper that works on the objects of a table. -/
def lift {α : Type} (x : Run α) : CallRun α :=
  ⟨x.result.mapError .helper, x.events.map (HandleEvent.map .handle)⟩

structure EntryContent where
  key : Dict Content
  data : Dict Content
  action : Option String

/-- What the functions on entries read besides the fields of a table. -/
structure EntryCli extends TableCli where
  /-- `table_type_str(self.get_type())` is not `-1`. -/
  tableTypeKnown : Bool
  actionIdNameMap : ℤ → Option String
  targetCreate : TdiStatus
  entryDel : TdiStatus
  entryGet : TdiStatus
  entryGetByHandle : TdiStatus
  entryKeyGet : TdiStatus
  /-- the status, and the handle that is written -/
  entryHandleGet : TdiStatus × UInt32
  defaultEntrySet : TdiStatus
  defaultEntryReset : TdiStatus
  defaultEntryGet : TdiStatus
  getKeyFields : Except Failure (Dict Content)
  getDataFields : (action : Option String) → Except Failure (Dict Content)
  /-- `print_target`, which the interface of a target may have -/
  printTarget : Except Failure Unit
  printEntry : Option (Dict Content) → Option (Dict Content) → (action : Option String) →
    Except Failure Unit

/-- Which of `key_content` and `key_handle` is not `None`. -/
inductive KeyArg where
  | content (keyContent : Dict Content)
  | handle
  | both

namespace KeyArg

/-- `is_key_set` -/
def isKeySet : KeyArg → Bool
  | content _ => false
  | _ => true

def isBoth : KeyArg → Bool
  | both => true
  | _ => false

/-- The key object that is worked on. -/
def obj : KeyArg → Obj
  | content _ => .key
  | _ => .given

end KeyArg

namespace EntryCli

variable (c : EntryCli)

section Reading

/-- `self.action_id_name_map[action_id]` -/
def actionName (actionId : ℤ) : CallRun String :=
  (c.actionIdNameMap actionId).elim (Traced.raise (.helper (.python .keyError))) pure

/-- `_action_from_data`, where the table has actions. -/
def dataActionId : CallRun (Option ℤ) :=
  if c.table.actions.entries.length > 0 then do
    Traced.emit ([.data].map passed)
    return some (c.actionFromData ⟨.data, 0⟩)
  else return none

def dataAction : CallRun (Option String) := do
  match ← c.dataActionId with
  | none => return none
  | some actionId => do
    let name ← c.actionName actionId
    return some name

def readKey (keyHandle : Obj) : CallRun (Dict Content) := do
  Traced.emit ([keyHandle].map passed)
  lift (Traced.ofExcept c.getKeyFields)

def readData (action : Option String) : CallRun (Dict Content) := do
  Traced.emit ([.data].map passed)
  lift (Traced.ofExcept (c.getDataFields action))

/-- The action of a printed entry, if its id is given. -/
def printedAction (actionId : Option ℤ) : CallRun (Option String) :=
  match actionId with
  | none => return none
  | some actionId => do
    let name ← c.actionName actionId
    return some name

/-- `print_entry_stream`, for the one entry whose key object and data object are given. -/
def streamPrinter (keyHandle : Option Obj) (withData : Bool) (actionId : Option ℤ) :
    CallRun Unit := do
  let action ← c.printedAction actionId
  let keyContent ← (match keyHandle with
    | none => return none
    | some keyHandle => do
      let content ← c.readKey keyHandle
      return some content)
  let dataContent ← (if withData then do
      let content ← c.readData action
      return some content
    else return none)
  lift (Traced.ofExcept (c.printEntry keyContent dataContent action))

/-- The part of `get_default_entry` after the call. -/
def readDefault (print : Bool) : CallRun EntryContent := do
  let action ← c.dataAction
  let content ← c.readData action
  if print then do
    let actionId ← c.dataActionId
    c.streamPrinter none true actionId
    return ⟨.empty, content, action⟩
  else return ⟨.empty, content, action⟩

/-- The part of `get_entry` after the call. -/
def readEntry (keyHandle : Obj) (print : Bool) : CallRun EntryContent := do
  let _ ← (if print then do
      let actionId ← c.dataActionId
      c.streamPrinter (some keyHandle) true actionId
    else return ())
  let action ← c.dataAction
  let keyContent ← c.readKey keyHandle
  let content ← c.readData action
  return ⟨keyContent, content, action⟩

/-- The part of `get_entry_key` after the call. -/
def readKeyOnly (print : Bool) : CallRun (Dict Content) := do
  let content ← c.readKey .key
  if print then do
    lift (Traced.ofExcept c.printTarget)
    c.streamPrinter (some .key) false none
    return content
  else return content

end Reading

/-- A new flags object, whose flag `from_hw` is set: none is `-1`. -/
def fromHwFlags : CallRun (Option Obj) :=
  if c.driver.flagsCreate 0 0 ≠ .success then return none
  else do
    Traced.emit [obtained .flags]
    let _ ← lift (Traced.ofExcept c.flagMap)
    Traced.emit ([.flags].map passed)
    return some .flags

section Calls

/-- `set_default_entry`: none is `-1`. -/
def setDefaultEntry (dataContent : Dict Content) (action : Option String) :
    CallRun (Option Unit) :=
  if ¬ c.tableTypeKnown then return none
  else do
    match ← lift (c.makeCallData dataContent action) with
    | none => return none
    | some dataHandle => do
      Traced.emit ([.handle dataHandle].map passed)
      Traced.emit ([.handle dataHandle].map released)
      if c.defaultEntrySet ≠ .success then Traced.raise (.setDefaultEntry c.defaultEntrySet)
      else return some ()

/-- `reset_default_entry` -/
def resetDefaultEntry : CallRun (Option Unit) :=
  if ¬ c.tableTypeKnown then return none
  else if c.defaultEntryReset ≠ .success then
    Traced.raise (.resetDefaultEntry c.defaultEntryReset)
  else return some ()

/-- `get_default_entry` -/
def getDefaultEntry (print : Bool) : CallRun (Option EntryContent) :=
  if ¬ c.tableTypeKnown then return none
  else if c.driver.dataAllocate none 0 ≠ .success then
    Traced.raise (.dataAllocate (c.driver.dataAllocate none 0))
  else do
    Traced.emit [obtained .data]
    match ← c.fromHwFlags with
    | none => return none
    | some flags => do
      Traced.emit ([.data, flags].map passed)
      if c.defaultEntryGet ≠ .success then do
        Traced.emit ([.data, flags].map released)
        Traced.raise (.getDefaultEntry c.defaultEntryGet)
      else do
        let entry ← c.readDefault print
        Traced.emit ([.data, flags].map released)
        return some entry

/-- The end of `del_entry`. -/
def deleteKey (keyHandle : Obj) : CallRun (Option Unit) := do
  Traced.emit ([keyHandle].map passed)
  Traced.emit ([keyHandle].map released)
  if c.entryDel ≠ .success then Traced.raise (.entryDelete c.entryDel)
  else return some ()

/-- `del_entry` -/
def delEntry (keyContent : Dict Content) (entryHandle : Option UInt32) : CallRun (Option Unit) :=
  if entryHandle ≠ none ∧ "get_by_handle" ∉ c.table.supportedCommands then
    Traced.raise .deletingByHandle
  else if entryHandle ≠ none then
    if c.driver.keyAllocate 0 ≠ .success then
      Traced.raise (.helper (.keyAllocate (c.driver.keyAllocate 0)))
    else do
      Traced.emit [obtained .key]
      Traced.emit ([.key].map passed)
      if c.entryKeyGet ≠ .success then Traced.raise (.entryDelete c.entryKeyGet)
      else c.deleteKey .key
  else do
    match ← lift (c.makeCallKeys keyContent) with
    | none => return none
    | some keyHandle => c.deleteKey (.handle keyHandle)

/-- What `get_entry` frees at its end. A key that was passed is not freed. -/
def freedByGet (keyHandle : Obj) (isKeySet : Bool) (flags : Obj) : List Obj :=
  if isKeySet then [.data, flags] else [keyHandle, .data, flags]

/-- The end of `get_entry`. -/
def finishGet (keyHandle : Obj) (isKeySet print : Bool) (sts : TdiStatus) (flags : Obj) :
    CallRun (Option EntryContent) := do
  Traced.emit ([keyHandle, .data, flags].map passed)
  if sts ≠ .success then do
    Traced.emit ((freedByGet keyHandle isKeySet flags).map released)
    return none
  else do
    let entry ← c.readEntry keyHandle print
    Traced.emit ((freedByGet keyHandle isKeySet flags).map released)
    return some entry

/-- The key object of `get_entry`, where the entry is not got by its handle. -/
def keyOf : KeyArg → CallRun (Option Obj)
  | .content keyContent => do
    match ← lift (c.makeCallKeys keyContent) with
    | none => return none
    | some keyHandle => return some (.handle keyHandle)
  | _ => return some .given

/-- `get_entry`: none is `-1`. -/
def getEntry (keyArg : KeyArg) (print : Bool) (entryHandle : Option UInt32) :
    CallRun (Option EntryContent) :=
  if keyArg.isBoth then Traced.raise .keyContentAndHandle
  else if entryHandle ≠ none ∧ "get_by_handle" ∉ c.table.supportedCommands then
    Traced.raise .gettingByHandle
  else if c.driver.dataAllocate none 0 ≠ .success then return none
  else do
    Traced.emit [obtained .data]
    match ← c.fromHwFlags with
    | none => return none
    | some flags =>
      if entryHandle ≠ none then
        if c.driver.keyAllocate 0 ≠ .success then do
          Traced.emit ([.data].map released)
          return none
        else do
          Traced.emit [obtained .key]
          c.finishGet .key keyArg.isKeySet print c.entryGetByHandle flags
      else do
        match ← c.keyOf keyArg with
        | none => do
          Traced.emit ([.data].map released)
          return none
        | some keyHandle => c.finishGet keyHandle keyArg.isKeySet print c.entryGet flags

/-- `get_entry_handle`. A key that was made is freed only if the handle is not got, and then one
that was passed is as well. -/
def getEntryHandle (keyArg : KeyArg) : CallRun (Option UInt32) :=
  if keyArg.isBoth then Traced.raise .keyContentAndHandle
  else do
    match ← c.keyOf keyArg with
    | none => return none
    | some keyHandle => do
      Traced.emit ([keyHandle].map passed)
      if c.entryHandleGet.1 ≠ .success then do
        Traced.emit ([keyHandle].map released)
        return none
      else return some c.entryHandleGet.2

/-- `get_entry_key`. The target goes to the caller with the key. -/
def getEntryKey (print : Bool) : CallRun (Option (Dict Content × Obj)) :=
  if c.driver.keyAllocate 0 ≠ .success then return none
  else do
    Traced.emit [obtained .key]
    if c.targetCreate ≠ .success then return none
    else do
      Traced.emit [obtained .target]
      Traced.emit ([.target, .key].map passed)
      if c.entryKeyGet ≠ .success then do
        Traced.emit ([.key].map released)
        return none
      else do
        let key ← c.readKeyOnly print
        Traced.emit ([.key].map released)
        return some (key, .target)

end Calls

end EntryCli
end Tdi.Cli
