import Mathlib

/-!
# Common TDI definitions

Identifiers, status codes and the enumeration of data types shared by the
metadata, the runtime objects and the C front end.
-/
namespace Tdi

/-- `tdi_id_t`: a 32-bit identifier of a table, a field, an action and so on. -/
abbrev TdiId := UInt32

/-- `tdi_status_enum`, in the order of `TDI_STATUS_VALUES`. -/
inductive TdiStatus where
  | success
  | notReady
  | noSysResources
  | invalidArg
  | alreadyExists
  | hwCommFail
  | objectNotFound
  | maxSessionsExceeded
  | sessionNotFound
  | noSpace
  | eagain
  | initError
  | txnNotSupported
  | tableLocked
  | io
  | unexpected
  | entryReferencesExist
  | notSupported
  | hwUpdateFailed
  | noLearnClients
  | idleUpdateInProgress
  | deviceLocked
  | internalError
  | tableNotFound
  | inUse
  | notImplemented
  deriving DecidableEq, Repr

inductive FieldDataType where
  | intArr
  | boolArr
  | uint64
  | byteStream
  | float
  | container
  | string
  | bool
  | stringArr
  | int64
  | unknown
  deriving DecidableEq, Repr

/-- A value of one of the open enumerations (`tdi_table_type_e`, `tdi_match_type_e`,
`tdi_operations_type_e`, `tdi_attributes_type_e`), which architectures and targets
extend with numbers of their own. -/
abbrev EnumCode := ℕ

def tableTypeCore : EnumCode := 0
def matchTypeCore : EnumCode := 0
def operationsTypeCore : EnumCode := 0
def attributesTypeCore : EnumCode := 0

end Tdi
