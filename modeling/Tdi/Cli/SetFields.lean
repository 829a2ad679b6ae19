import Tdi.Cli.ByteArr
import Tdi.Cli.Field
import Tdi.Foundation.HandleBalance
import Tdi.Foundation.Traced

/-!
# Filling a key or a data object

`_set_key_fields` and `_set_data_fields` convert what the caller gave for a field
to the arguments of one driver function, which depends on the types of the field,
and call it. A conversion may raise, and so may the status that comes back.
-/
namespace Tdi.Cli

open Foundation HandleEvent

/-- What the content of a key or a data object may hold. A tuple acts as a list. -/
inductive Content where
  | none
  | bool (b : Bool)
  | int (i : ℤ)
  | float (x : Float)
  | str (s : String)
  | list (items : List Content)
  | dict (members : List (String × Content))

/-- The exceptions, with the status in the text of a `TdiTableError`. A status that no
driver function returned, `-1`, is none. -/
inductive Failure where
  | keyAllocate (sts : TdiStatus)
  | dataAllocate (sts : TdiStatus)
  | flagsCreate (sts : TdiStatus)
  | setKeyField (sts : Option TdiStatus)
  | setDataField (sts : Option TdiStatus)
  | entryAdd (sts : Option TdiStatus)
  | entryMod (sts : Option TdiStatus)
  | entryGetFirst (sts : TdiStatus)
  | entryGetNext (n : ℕ) (sts : TdiStatus)
  | python (exception : Raised)
  | valueError
  | overflowError

inductive HandleKind where
  | key
  | data
  | flags
  deriving DecidableEq

/-- A handle object, by its kind and the number of earlier ones of that kind. -/
structure Handle where
  kind : HandleKind
  index : ℕ
  deriving DecidableEq

abbrev Run := Traced Failure (HandleEvent Handle)

namespace Content

/-- An argument where `ctypes` takes nothing but an integer. -/
def asInt : Content → Except Failure ℤ
  | bool b => .ok b.toNat
  | int i => .ok i
  | _ => .error (.python .typeError)

def cUlonglong (value : Content) : Except Failure UInt64 := value.asInt.map UInt64.ofInt

def cInt64 (value : Content) : Except Failure Int64 := value.asInt.map Int64.ofInt

def cUshort (value : Content) : Except Failure UInt16 := value.asInt.map UInt16.ofInt

def cUint (value : Content) : Except Failure UInt32 := value.asInt.map UInt32.ofInt

/-- `c_bool` takes any object. -/
def cBool : Content → Bool
  | none => false
  | bool b => b
  | int i => i ≠ 0
  | float x => !isZero x
  | str s => s ≠ ""
  | list items => items.length ≠ 0
  | dict members => members.length ≠ 0

/-- The double that `c_float` then rounds. -/
def cFloat : Content → Except Failure Float
  | float x => .ok x
  | value => do
    let i ← value.asInt
    (floatOfInt i).elim (.error .overflowError) .ok

/-- `fill_c_byte_arr`. Without a byte to fill the value is not looked at. -/
def byteArr (value : Content) (size : ℕ) : Except Failure (List UInt8) :=
  if (size + 7) / 8 = 0 then .ok []
  else value.asInt.map fun i => (fillCByteArr i size).1

/-- `str(value)`, where `display` is `str` of a list or a dict. -/
def toStr (display : Content → String) : Content → String
  | none => "None"
  | bool true => "True"
  | bool false => "False"
  | int i => toString i
  | float x => strOfFloat x
  | str s => s
  | value => display value

/-- `value[i]` -/
def index (value : Content) (i : ℕ) : Except Failure Content :=
  match value with
  | str s => (s.toList[i]?).elim (.error (.python .indexError)) fun c => .ok (str (.singleton c))
  | list items => (items[i]?).elim (.error (.python .indexError)) .ok
  | dict _ => .error (.python .keyError)
  | _ => .error (.python .typeError)

/-- What a loop over the value goes through. -/
def iterate : Content → Except Failure (List Content)
  | str s => .ok (s.toList.map fun c => str (String.singleton c))
  | list items => .ok items
  | dict members => .ok (members.map fun p => str p.1)
  | _ => .error (.python .typeError)

def asciiBytes (s : String) : Except Failure (List UInt8) :=
  match encodeAscii s with
  | .ok s => .ok (s.toList.map fun c => UInt8.ofNat c.toNat)
  | .error e => .error (.python e)

/-- `value.encode('ascii')` -/
def encode : Content → Except Failure (List UInt8)
  | str s => asciiBytes s
  | _ => .error (.python .attributeError)

/-- `bytes.fromhex`: pairs of digits, with white space between them. -/
def fromHex : List Char → Option (List UInt8)
  | [] => some []
  | [c] => if isPySpace c then some [] else Option.none
  | c :: d :: cs =>
    if isPySpace c then fromHex (d :: cs)
    else
      match JsonTree.hexValue c, JsonTree.hexValue d with
      | some high, some low => (fromHex cs).map (UInt8.ofNat (16 * high + low) :: ·)
      | _, _ => Option.none

/-- The bytes of a string field: digits after `0x`, else ASCII text. -/
def stringBytes : Content → Except Failure (List UInt8)
  | str s =>
    if s.toList.take 2 = ['0', 'x'] then
      (fromHex (s.toList.drop 2)).elim (.error .valueError) .ok
    else asciiBytes s
  -- a list can be sliced, but not encoded
  | list _ => .error (.python .attributeError)
  | _ => .error (.python .typeError)

end Content

/-- `TdiTableField`, as far as the setters read it. -/
structure SetField where
  size : ℕ
  isPtr : Bool
  matchType : MatchType
  dataType : FieldDataType

/-- The driver functions that set a key field, with their arguments. -/
inductive KeySet where
  | string (value : List UInt8)
  | value (value : UInt64)
  | ptr (bytes : List UInt8)
  | valueAndMask (value mask : UInt64)
  | valueAndMaskPtr (value mask : List UInt8)
  | valueRange (first last : UInt64)
  | valueRangePtr (first last : List UInt8)
  | valueLpm (value : UInt64) (prefixLen : UInt16)
  | valueLpmPtr (value : List UInt8) (prefixLen : UInt16)
  | valueOptional (value : UInt64) (isValid : Bool)
  | valueOptionalPtr (value : List UInt8) (isValid : Bool)

/-- The driver functions that set a data field, with their arguments. -/
inductive DataSet where
  | value (value : UInt64)
  | ptr (bytes : List UInt8)
  | int64 (value : Int64)
  | array (values : List UInt32)
  | boolArray (values : List Bool)
  | strArray (text : List UInt8)
  | float (value : Float)
  | bool (value : Bool)
  | string (text : List UInt8)

/-- The call `_set_key_fields` makes for a field, none for a type it does not know. -/
def keySet (info : SetField) (value : Content) : Except Failure (Option KeySet) :=
  match info.matchType, info.isPtr with
  | .exact, isPtr =>
    if info.dataType = .string then do
      return some (.string (← value.encode))
    else if ¬ isPtr then do
      return some (.value (← value.cUlonglong))
    else do
      return some (.ptr (← value.byteArr info.size))
  | .ternary, false => do
    return some (.valueAndMask (← (← value.index 0).cUlonglong) (← (← value.index 1).cUlonglong))
  | .ternary, true => do
    return some (.valueAndMaskPtr (← (← value.index 0).byteArr info.size)
      (← (← value.index 1).byteArr info.size))
  | .range, false => do
    return some (.valueRange (← (← value.index 0).cUlonglong) (← (← value.index 1).cUlonglong))
  | .range, true => do
    return some (.valueRangePtr (← (← value.index 0).byteArr info.size)
      (← (← value.index 1).byteArr info.size))
  | .lpm, false => do
    return some (.valueLpm (← (← value.index 0).cUlonglong) (← (← value.index 1).cUshort))
  | .lpm, true => do
    return some (.valueLpmPtr (← (← value.index 0).byteArr info.size)
      (← (← value.index 1).cUshort))
  | .optional, false => do
    return some (.valueOptional (← (← value.index 0).cUlonglong) (← value.index 1).cBool)
  | .optional, true => do
    return some (.valueOptionalPtr (← (← value.index 0).byteArr info.size)
      (← value.index 1).cBool)
  | .notImplemented, _ => return none

/-- The call `_set_data_field` makes for a field, none for a type it does not know. -/
def dataSet (display : Content → String) (info : SetField) (value : Content) :
    Except Failure (Option DataSet) :=
  match info.dataType with
  | .byteStream => do return some (.ptr (← value.byteArr info.size))
  | .uint64 =>
    if ¬ info.isPtr then do return some (.value (← value.cUlonglong))
    else do return some (.ptr (← value.byteArr info.size))
  | .int64 => do return some (.int64 (← value.cInt64))
  | .intArr => do return some (.array (← (← value.iterate).mapM Content.cUint))
  | .boolArr => do return some (.boolArray ((← value.iterate).map Content.cBool))
  | .stringArr => do
    let texts := (← value.iterate).map (Content.toStr display)
    return some (.strArray (← Content.asciiBytes (" ".intercalate texts)))
  | .float => do return some (.float (← value.cFloat))
  | .bool => return some (.bool value.cBool)
  | .string => do return some (.string (← value.stringBytes))
  | .container => return none
  | .unknown => return none

end Tdi.Cli
