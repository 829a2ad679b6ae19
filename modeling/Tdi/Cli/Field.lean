import Tdi.Cli.Value

/-!
# Reading and showing one field

`TdiTableField.parse_input` turns what the user gave into what the driver's API
takes, `deparse_output` turns what was read from the driver into what is dumped.
Each is a case split over the category, the match type and the data type. A pair
`(success, parsed)` is the result of a parser that does not raise.
-/
namespace Tdi.Cli

open Foundation

inductive Category where
  | key
  | data
  deriving DecidableEq

def Category.text : Category → String
  | .key => "key"
  | .data => "data"

/-- `key_match_type_str` -/
inductive MatchType where
  | exact
  | ternary
  | lpm
  | range
  | optional
  | notImplemented
  deriving DecidableEq

/-- `data_type_str` -/
inductive DataType where
  | intArr
  | boolArr
  | uint64
  | byteStream
  | float
  | container
  | string
  | bool
  | strArr
  | int64
  | notImplemented
  deriving DecidableEq

/-- `TdiTableField` -/
structure Field where
  name : String
  size : ℕ
  readOnly : Bool
  required : Bool
  category : Category
  matchType : MatchType
  dataType : DataType
  annotations : List (String × String)
  /-- the type of the field's table -/
  tableType : String
  contDataFields : List (String × Field)

abbrev Parsed := Except Raised (Bool × Value)

namespace Field

variable (x : Externs) (f : Field)

/-- An address in a string, by the character that gives it away. -/
def addressOfString (s : String) : Option ℤ :=
  ((if '.' ∈ s.toList then x.ip s else none).or
    (if '-' ∈ s.toList then x.mac s else none)).or
    (if ':' ∈ s.toList then x.mac s else none)

/-- `int` of an address, of a literal or of anything else. -/
def intOfInput : Value → Option ℤ
  | .str s => (addressOfString x s).or (intOfLiteral s)
  | value => value.toInt?

/-- The part of `_parse_int` after the defaults. -/
def convertInt (value : Value) (skipSizeCheck maskType : Bool) : Parsed :=
  match intOfInput x value with
  | none => .ok (false, .int (-1))
  | some parsed =>
    -- `& ((1 << size) - 1)`
    let parsed := if maskType ∧ parsed < 0 then parsed % 2 ^ f.size else parsed
    if skipSizeCheck then .ok (true, .int parsed)
    else if parsed >>> f.size > 0 then
      .error (.tooWide f.category.text f.name parsed f.size)
    else .ok (true, .int parsed)

def parseInt (value : Value) (skipSizeCheck maskType : Bool) : Parsed :=
  match value with
  | .none =>
    if f.readOnly then .ok (true, .none)
    else if ¬ f.required ∨ (f.tableType = "MATCH_INDIRECT_SELECTOR" ∧
        (f.name = "$ACTION_MEMBER_ID" ∨ f.name = "$SELECTOR_GROUP_ID")) then .ok (true, .none)
    else f.convertInt x (.int (if maskType then 2 ^ f.size - 1 else 0)) skipSizeCheck maskType
  | value =>
    if f.readOnly then .ok (true, .none)
    else f.convertInt x value skipSizeCheck maskType

/-- How the other parsers begin: the value to parse, or none where `None` is the result. -/
def given (value default : Value) : Option Value :=
  match value with
  | .none => if f.readOnly ∨ ¬ f.required then none else some default
  | value => if f.readOnly then none else some value

def parseFloat (value : Value) : Parsed :=
  match f.given value (.int 0) with
  | none => .ok (true, .none)
  | some value => (value.toFloat?).elim (.error .notFloat) fun parsed => .ok (true, .float parsed)

def parseBool (value : Value) : Parsed :=
  match f.given value (.int 0) with
  | none => .ok (true, .none)
  | some value => .ok (true, .bool value.truth)

def parseString (value : Value) : Parsed :=
  match f.given value (.int 0) with
  | none => .ok (true, .none)
  | some value => .ok (true, .str (value.toStr x))

/-- The loop of an array parser: the first element that fails makes the array fail. -/
def parseElements (parseElement : Value → Parsed) : List Value → Except Raised (Option (List Value))
  | [] => .ok (some [])
  | element :: elements => do
    let (success, parsed) ← parseElement element
    if success then
      let rest ← parseElements parseElement elements
      .ok (rest.map fun rest => parsed :: rest)
    else .ok none

def parseArr (parseElement : Value → Parsed) (value : Value) : Parsed :=
  match value.iterate with
  | none => .error .notIterable
  | some elements => do
    match ← parseElements parseElement elements with
    | some parsed => .ok (true, .list parsed)
    | none => .ok (false, .int (-1))

def parseIntArr (value : Value) : Parsed :=
  match value, f.name with
  -- a `TesterInt`, which reads as that many `True`s
  | .none, "$ACTION_MEMBER_STATUS" => .ok (true, .list (List.replicate f.size (.bool true)))
  | value, _ =>
    match f.given value (.list []) with
    | none => .ok (true, .none)
    | some value => parseArr (fun element => f.parseInt x element true false) value

def parseStrArr (value : Value) : Parsed :=
  match f.given value (.list []) with
  | none => .ok (true, .none)
  | some value => parseArr (f.parseString x) value

def parseTernary (value : Value) : Parsed := do
  match ← value.index 0 with
  | .none => do
    match ← value.index 1 with
    | .none => .ok (true, .list [.int 0, .int 0])
    | v1 => do
      let (s0, p0) ← f.parseInt x .none false false
      let (s1, p1) ← f.parseInt x v1 false true
      .ok (s0 && s1, .list [p0, p1])
  | v0 => do
    let (s0, p0) ← f.parseInt x v0 false false
    let (s1, p1) ← f.parseInt x (← value.index 1) false true
    .ok (s0 && s1, .list [p0, p1])

/-- `RANGE` and `LPM` -/
def parsePair (value : Value) : Parsed := do
  let (s0, p0) ← f.parseInt x (← value.index 0) false false
  let (s1, p1) ← f.parseInt x (← value.index 1) false false
  .ok (s0 && s1, .list [p0, p1])

def parseOptional (value : Value) : Parsed := do
  match ← value.index 0 with
  | .none => do
    let (s0, p0) ← f.parseInt x .none false false
    let (s1, p1) ← f.parseBool (← value.index 1)
    .ok (s0 && s1, .list [p0, p1])
  | v0 => do
    match ← value.index 1 with
    | .none => do
      let (s0, p0) ← f.parseInt x v0 false false
      .ok (s0, .list [p0, .bool true])
    | v1 => do
      let (s0, p0) ← f.parseInt x v0 false false
      let (s1, p1) ← f.parseBool v1
      .ok (s0 && s1, .list [p0, p1])

/-- `parse_input` of a field that is no container. -/
def parseFlat (value : Value) : Parsed :=
  match f.category, f.matchType, f.dataType with
  | .key, .exact, .uint64 => f.parseInt x value false false
  | .key, .exact, .byteStream => f.parseInt x value false false
  | .key, .exact, .string => f.parseString x value
  | .key, .ternary, _ => f.parseTernary x value
  | .key, .range, _ => f.parsePair x value
  | .key, .lpm, _ => f.parsePair x value
  | .key, .optional, _ => f.parseOptional x value
  | .key, _, _ => .error (.unsupportedKeyType f.name)
  -- a `BOOL` is read as an integer
  | .data, _, .uint64 => f.parseInt x value false false
  | .data, _, .byteStream => f.parseInt x value false false
  | .data, _, .bool => f.parseInt x value false false
  | .data, _, .int64 => f.parseInt x value false false
  | .data, _, .float => f.parseFloat value
  | .data, _, .string => f.parseString x value
  | .data, _, .strArr => f.parseStrArr x value
  | .data, _, .intArr => f.parseIntArr x value
  | .data, _, .boolArr => f.parseIntArr x value
  | .data, _, _ => .error (.unsupportedDataType f.name)

mutual

/-- `parse_input`, with `_parse_cont_list` in the case of a container -/
def parseInput (f : Field) : Value → Parsed
  | .list items =>
    if f.category = .data ∧ f.dataType = .container then f.parseConts items
    else f.parseFlat x (.list items)
  | .tuple items =>
    if f.category = .data ∧ f.dataType = .container then f.parseConts items
    else f.parseFlat x (.tuple items)
  | value =>
    if f.category = .data ∧ f.dataType = .container then
      match value.iterate with
      | some [] => .ok (true, .list [])
      -- the characters of a string and the keys of a dict are not dicts
      | some (_ :: _) => .ok (false, .int (-1))
      | none => match value with
        | .none => .ok (true, .str "")
        | _ => .error .notIterable
    else f.parseFlat x value

/-- The loop of `_parse_cont_list`. -/
def parseConts (f : Field) : List Value → Parsed
  | [] => .ok (true, .list [])
  | element :: elements => do
    match ← f.parseCont element with
    | none => .ok (false, .int (-1))
    | some parsed =>
      match ← f.parseConts elements with
      | (true, .list rest) => .ok (true, .list (parsed :: rest))
      | failed => .ok failed

/-- `_parse_cont` -/
def parseCont (f : Field) : Value → Except Raised (Option Value)
  | .dict members => do
    let parsed ← f.parseMembers members
    .ok (some (.dict parsed))
  | _ => .ok none

def parseMembers (f : Field) : List (String × Value) → Except Raised (List (String × Value))
  | [] => .ok []
  | (name, value) :: members => do
    let name ← encodeAscii name
    match f.contDataFields.lookup name with
    | none => .error .keyError
    | some inner =>
      -- whether the inner field was parsed with success is not looked at
      let (_, parsed) ← inner.parseInput value
      let rest ← f.parseMembers members
      .ok ((name, parsed) :: rest)

end

section Output

/-- `_deparse_int`: what is not an integer stays as it is. -/
def deparseInt (value : Value) : Value :=
  match value.toInt? with
  | some i => .int i
  | none => value

/-- `_deparse_float` -/
def deparseFloat (value : Value) : Value := (value.toFloat?).elim value .float

/-- `[value[i] for i in range(len(value))]` -/
def deparseIntArr : Value → Except Raised Value
  | .str s => .ok (.list (s.toList.map fun c => .str (String.singleton c)))
  | .list items => .ok (.list items)
  | .tuple items => .ok (.list items)
  | .dict [] => .ok (.list [])
  | .dict _ => .error .keyError
  | _ => .error .typeError

def deparsePair (deparse1 : Value → Value) (value : Value) : Except Raised Value := do
  let p0 := deparseInt (← value.index 0)
  let p1 := deparse1 (← value.index 1)
  .ok (.tuple [p0, p1])

/-- `deparse_output` -/
def deparseOutput (value : Value) : Except Raised Value :=
  match f.category, f.matchType, f.dataType with
  | .data, _, .intArr => deparseIntArr value
  | .data, _, .boolArr => deparseIntArr value
  | .key, .exact, _ => .ok (deparseInt value)
  | .data, _, .uint64 => .ok (deparseInt value)
  | .data, _, .byteStream => .ok (deparseInt value)
  | .data, _, .int64 => .ok (deparseInt value)
  | .key, .ternary, _ => deparsePair deparseInt value
  | .key, .range, _ => deparsePair deparseInt value
  | .key, .lpm, _ => deparsePair deparseInt value
  | .key, .optional, _ => deparsePair (fun value => .bool value.truth) value
  | .data, _, .float => .ok (deparseFloat value)
  | .data, _, .bool => .ok (.bool value.truth)
  | .data, _, .string => .ok (.str (value.toStr x))
  -- no branch for the other types, `STR_ARR` among them
  | _, _, _ => .ok (.str "Error")

end Output

end Field
end Tdi.Cli
