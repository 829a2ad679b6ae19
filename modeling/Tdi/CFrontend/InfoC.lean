import Tdi.CFrontend.TableInfoC
import Tdi.Info.TdiInfo

/-!
# Lookups by name and by id in the C API

The functions of `tdi_info_c.cpp` that find one table or learn object. Each declares a
local pointer without an initial value, has the C++ lookup write to it, and then reads it
whether the lookup wrote to it or not.
-/
namespace Tdi.CFrontend

open Foundation Json Info

/-- What a pointer variable may hold: the last is an address at which there is no object. -/
inductive Pointer (α : Type) where
  | null
  | object (a : α)
  | stray (address : UInt64)
  deriving DecidableEq

/-- What a call does: it returns a status and leaves something in the caller's memory, or it
goes through a pointer that leads to no object. `none` is a null argument. -/
inductive CallResult (α : Type) where
  | returned (status : TdiStatus) (out : Option α)
  | badDeref

namespace CallResult

variable {α T : Type}

def derefArg {β : Type} (arg : Option β) (body : β → CallResult α) : CallResult α :=
  match arg with
  | none => badDeref
  | some b => body b

def deref (p : Pointer T) (body : T → CallResult α) : CallResult α :=
  match p with
  | .object a => body a
  | _ => badDeref

/-- The test of the out parameter with which each function begins. -/
def checkOut (out : Option α) (body : α → CallResult α) : CallResult α :=
  match out with
  | none => returned .invalidArg none
  | some old => body old

end CallResult

open CallResult

/-- A C++ lookup with its out parameter, which it leaves alone when it fails. -/
def lookupInto {T : Type} (found : Except TdiStatus T) (object : Pointer T) :
    TdiStatus × Pointer T :=
  match found with
  | .ok a => (.success, .object a)
  | .error status => (status, object)

section Functions

variable {Table : Type} (tdi : Option (TdiInfo Table))

/-- The end of the functions that return a handle. -/
def writeHandle {T : Type} (found : Except TdiStatus T) (object : Pointer T) :
    CallResult (Pointer T) :=
  .returned (lookupInto found object).1 (some (lookupInto found object).2)

/-- A lookup by name that returns a handle, with the tests of its arguments. -/
def handleFromName {T : Type} (lookup : TdiInfo Table → String → Except TdiStatus T)
    (name : Option String) (hdlRet : Option (Pointer T)) (object : Pointer T) :
    CallResult (Pointer T) :=
  checkOut hdlRet fun old =>
    match tdi, name with
    | some info, some name => writeHandle (lookup info name) object
    | _, _ => .returned .invalidArg (some old)

/-- A lookup by id does not test the handle of the program. -/
def handleFromId {T : Type} (lookup : TdiInfo Table → TdiId → Except TdiStatus T)
    (id : TdiId) (hdlRet : Option (Pointer T)) (object : Pointer T) : CallResult (Pointer T) :=
  checkOut hdlRet fun _ => derefArg tdi fun info => writeHandle (lookup info id) object

def tdiTableFromNameGet (tableName : Option String) (tableHdlRet : Option (Pointer Table))
    (table : Pointer Table) : CallResult (Pointer Table) :=
  handleFromName tdi TdiInfo.tableFromNameGet tableName tableHdlRet table

def tdiTableFromIdGet (id : TdiId) (tableHdlRet : Option (Pointer Table))
    (table : Pointer Table) : CallResult (Pointer Table) :=
  handleFromId tdi TdiInfo.tableFromIdGet id tableHdlRet table

def tdiLearnFromNameGet (learnName : Option String) (learnHdlRet : Option (Pointer Learn))
    (learn : Pointer Learn) : CallResult (Pointer Learn) :=
  handleFromName tdi TdiInfo.learnFromNameGet learnName learnHdlRet learn

def tdiLearnFromIdGet (id : TdiId) (learnHdlRet : Option (Pointer Learn))
    (learn : Pointer Learn) : CallResult (Pointer Learn) :=
  handleFromId tdi TdiInfo.learnFromIdGet id learnHdlRet learn

/-- The failure is recognised by the pointer and not by the status. -/
def tdiTableNameToId (factory : TableFactory Table) (tableName : Option String)
    (idRet : Option TdiId) (table : Pointer Table) : CallResult TdiId :=
  checkOut idRet fun old =>
    match tdi, tableName with
    | some info, some name =>
      match lookupInto (info.tableFromNameGet name) table with
      | (status, .null) => .returned status (some old)
      | (_, table) => deref table fun t => .returned .success (some (factory.tableInfoGet t).id)
    | _, _ => .returned .invalidArg (some old)

end Functions

section Failures

variable {Table : Type}

/-- The error is returned, and the memory of the caller is as it was or holds null. -/
def HandleKept {T : Type} (status : TdiStatus) (old : Pointer T)
    (result : CallResult (Pointer T)) : Prop :=
  status ≠ .success ∧
    (result = .returned status (some old) ∨ result = .returned status (some .null))

/-- A status other than success is returned, and the memory of the caller is as it was. -/
def IdKept (old : TdiId) (result : CallResult TdiId) : Prop :=
  ∃ status, status ≠ .success ∧ result = .returned status (some old)

theorem handleKept_writeHandle_iff {T : Type} {status : TdiStatus} (hstatus : status ≠ .success)
    (old object : Pointer T) :
    HandleKept status old (writeHandle (.error status) object) ↔
      object = .null ∨ object = old := by
  simp [HandleKept, writeHandle, lookupInto, hstatus, or_comm]

theorem idKept_tdiTableNameToId_iff {info : TdiInfo Table} {name : String} {status : TdiStatus}
    (hfound : info.tableFromNameGet name = .error status) (hstatus : status ≠ .success)
    (factory : TableFactory Table) (old : TdiId) (table : Pointer Table) :
    IdKept old (tdiTableNameToId (some info) factory (some name) (some old) table) ↔
      table = .null := by
  simp only [tdiTableNameToId, checkOut, hfound, lookupInto]
  cases table with
  | null => exact iff_of_true ⟨status, hstatus, rfl⟩ rfl
  | object t =>
    refine iff_of_false ?_ nofun
    rintro ⟨status', hne, h⟩
    cases h
    exact hne rfl
  | stray address =>
    refine iff_of_false ?_ nofun
    rintro ⟨status', hne, h⟩
    cases h

section Errors

variable {info : TdiInfo Table} {status : TdiStatus}

theorem tableFromNameGet_error {name : String} (h : info.tableFromNameGet name = .error status) :
    status ≠ .success := by
  unfold TdiInfo.tableFromNameGet at h
  split at h
  · cases h; decide
  · split at h
    · cases h; decide
    · cases h

theorem tableFromIdGet_error {id : TdiId} (h : info.tableFromIdGet id = .error status) :
    status ≠ .success := by
  unfold TdiInfo.tableFromIdGet at h
  split at h
  · cases h; decide
  · cases h

theorem learnFromNameGet_error {name : String} (h : info.learnFromNameGet name = .error status) :
    status ≠ .success := by
  unfold TdiInfo.learnFromNameGet at h
  split at h
  · cases h; decide
  · cases h

theorem learnFromIdGet_error {id : TdiId} (h : info.learnFromIdGet id = .error status) :
    status ≠ .success := by
  unfold TdiInfo.learnFromIdGet at h
  split at h
  · cases h; decide
  · cases h

end Errors

/-- A failed lookup has no effect exactly when the local pointer happens to be null, or, where
it is handed out, to be what the caller's memory held already. -/
theorem failed_lookups_kept_iff (info : TdiInfo Table) (factory : TableFactory Table)
    (status : TdiStatus) :
    (∀ name old table, info.tableFromNameGet name = .error status →
      (IdKept old (tdiTableNameToId (some info) factory (some name) (some old) table) ↔
        table = .null)) ∧
    (∀ name old table, info.tableFromNameGet name = .error status →
      (HandleKept status old (tdiTableFromNameGet (some info) (some name) (some old) table) ↔
        table = .null ∨ table = old)) ∧
    (∀ id old table, info.tableFromIdGet id = .error status →
      (HandleKept status old (tdiTableFromIdGet (some info) id (some old) table) ↔
        table = .null ∨ table = old)) ∧
    (∀ name old learn, info.learnFromNameGet name = .error status →
      (HandleKept status old (tdiLearnFromNameGet (some info) (some name) (some old) learn) ↔
        learn = .null ∨ learn = old)) ∧
    (∀ id old learn, info.learnFromIdGet id = .error status →
      (HandleKept status old (tdiLearnFromIdGet (some info) id (some old) learn) ↔
        learn = .null ∨ learn = old)) := by
  refine ⟨?_, ?_, ?_, ?_, ?_⟩
  · intro name old table h
    exact idKept_tdiTableNameToId_iff h (tableFromNameGet_error h) factory old table
  · intro name old table h
    rw [← handleKept_writeHandle_iff (tableFromNameGet_error h), ← h]
    rfl
  · intro id old table h
    rw [← handleKept_writeHandle_iff (tableFromIdGet_error h), ← h]
    rfl
  · intro name old learn h
    rw [← handleKept_writeHandle_iff (learnFromNameGet_error h), ← h]
    rfl
  · intro id old learn h
    rw [← handleKept_writeHandle_iff (learnFromIdGet_error h), ← h]
    rfl

/-- A program without tables, and a table of another program to which a local pointer may
still point. -/
def noTables : TdiInfo TableInfo := TdiInfo.makeTdiInfo "program" ⟨∅, ∅⟩ ⟨some, id⟩

theorem noTables_kept :
    IdKept 7 (tdiTableNameToId (some noTables) ⟨some, id⟩ (some "pipe.ports") (some 7) .null) ∧
    HandleKept .objectNotFound .null
      (tdiTableFromIdGet (some noTables) 1 (some .null) .null) ∧
    HandleKept .objectNotFound .null
      (tdiLearnFromNameGet (some noTables) (some "digest") (some .null) .null) :=
  have h := failed_lookups_kept_iff noTables ⟨some, id⟩ .objectNotFound
  ⟨(h.1 "pipe.ports" 7 .null rfl).mpr rfl, (h.2.2.1 1 .null .null rfl).mpr (.inl rfl),
    (h.2.2.2.1 "digest" .null .null rfl).mpr (.inl rfl)⟩

/-- The name is not found, and the call succeeds with the id of the table to which the local
pointer happens to point, or goes through a stray pointer; the other calls hand it out. -/
theorem noTables_stale_pointer :
    noTables.tableFromNameGet "pipe.ports" = .error .objectNotFound ∧
    tdiTableNameToId (some noTables) ⟨some, id⟩ (some "pipe.ports") (some 7) (.object bareTable) =
      .returned .success (some 1) ∧
    tdiTableNameToId (some noTables) ⟨some, id⟩ (some "pipe.ports") (some 7) (.stray 64) =
      .badDeref ∧
    tdiTableFromNameGet (some noTables) (some "pipe.ports") (some .null) (.stray 64) =
      .returned .objectNotFound (some (.stray 64)) ∧
    ¬∀ table, IdKept 7
      (tdiTableNameToId (some noTables) ⟨some, id⟩ (some "pipe.ports") (some 7) table) := by
  refine ⟨rfl, rfl, rfl, rfl, ?_⟩
  intro h
  obtain ⟨status, _, hres⟩ := h (.stray 64)
  cases hres

end Failures
end Tdi.CFrontend
