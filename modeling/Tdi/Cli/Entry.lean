import Tdi.Cli.Field

/-!
# Dumping and adding entries

`TableEntryDumper` groups the entries it is handed by their action, `dump_json`
writes their raw forms as one text, and `add_from_json` parses such a text entry
by entry and calls `add_entry` for each. What is only printed is left out. A dump
is made without patterns, so `stringify_output` has no effect here.
-/
namespace Tdi.Cli

open Foundation

/-- `TdiTable`, with the fields as `_init_key` and `_init_data` make them. -/
structure Table where
  name : String
  keyFields : Dict Field
  dataFields : Dict Field
  /-- the `data_fields` of each action -/
  actions : Dict (Dict Field)
  keyFields_key : ∀ p ∈ keyFields.entries,
    p.2.category = .key ∧ p.2.readOnly = false ∧ p.2.required = true
  dataFields_data : ∀ p ∈ dataFields.entries, p.2.category = .data
  actions_data : ∀ a ∈ actions.entries, ∀ p ∈ a.2.entries, p.2.category = .data

/-- What a loop of `add_from_json` is left by: an exception, or input that does not parse. -/
inductive Stop where
  | raised (exception : Raised)
  | failed

/-- The arguments of one call of `add_entry`. -/
structure AddCall where
  keys : List (String × Value)
  data : List (String × Value)
  action : Option String

/-- An entry as it is filed: what was read, less the fields that
`prune_unwanted_data_fields` drops, with its action if the table has actions. -/
structure Entry where
  keyContent : Dict Value
  dataContent : Dict Value
  action : Option String

namespace Table

variable (x : Externs) (t : Table)

/-- `key_fields[name]` or `data_fields[name]` -/
def field (fields : Dict Field) (name : String) : Except Raised Field :=
  (fields.get? name).elim (.error .keyError) .ok

/-- The data fields of an action, or of the table. -/
def fieldsOf (action : Option String) : Except Raised (Dict Field) :=
  match action with
  | none => .ok t.dataFields
  | some action => do
    let action ← encodeAscii action
    (t.actions.get? action).elim (.error .keyError) .ok

def rawField (fields : Dict Field) (name : String) (value : Value) : Except Raised Value := do
  let field ← field fields name
  let deparsed ← field.deparseOutput x value
  let _ ← encodeAscii name
  .ok deparsed

def rawContent (fields : Dict Field) (content : Dict Value) :
    Except Raised (List (String × Value)) :=
  mapEntries (rawField x fields) content.entries

/-- The dict that `raw_entry` returns. -/
def raw (action : Option String) (rawKey rawData : List (String × Value)) : Value :=
  .dict [("table_name", .str t.name), ("action", action.elim .none .str), ("key", .dict rawKey),
    ("data", .dict rawData)]

/-- `raw_entry` -/
def rawEntry (keyContent dataContent : Dict Value) (action : Option String) :
    Except Raised Value := do
  let rawKey ← rawContent x t.keyFields keyContent
  let dataFields ← t.fieldsOf action
  let rawData ← rawContent x dataFields dataContent
  .ok (t.raw action rawKey rawData)

def parseField (fields : Dict Field) (name : String) (input : Value) : Except Stop Value := do
  let field ← (field fields name).mapError .raised
  match ← (field.parseInput x input).mapError .raised with
  | (true, parsed) => .ok parsed
  | (false, _) => .error .failed

def parseContent (fields : Dict Field) (content : List (String × Value)) :
    Except Stop (List (String × Value)) :=
  mapEntries (parseField x fields) content

/-- `parse_str_input` -/
def parseStrInput (key data : List (String × Value)) (action : Option String) :
    Except Stop (List (String × Value) × List (String × Value)) := do
  let parsedKeys ← parseContent x t.keyFields key
  let dataFields ← (t.fieldsOf action).mapError .raised
  let parsedData ← parseContent x dataFields data
  .ok (parsedKeys, parsedData)

/-- A register's data field is dumped as a list with one element for each pipe. -/
def isRegisterData (field : Field) : Bool :=
  (field.dataType = .uint64 ∨ field.dataType = .byteStream ∨ field.dataType = .bool) ∧
    ("$bfrt_field_class", "register_data") ∈ field.annotations

/-- The value that is passed on: for a register the first element of the list. -/
def registerValue (action : Option String) (name : String) (value : Value) : Value :=
  match value with
  | .list items =>
    match t.fieldsOf action with
    | .ok fields =>
      match fields.get? name with
      | some field => if isRegisterData field then items.headD value else value
      | none => value
    | .error _ => value
  | value => value

def encodeNames (items : List (String × Value)) : Except Raised (List (String × Value)) :=
  mapEntries (fun name value => (encodeAscii name).map fun _ => value) items

/-- `saction.encode('ascii')`, unless it is `None` -/
def encodeAction (saction : Value) : Except Raised (Option String) :=
  match saction with
  | .none => .ok none
  | .str action => (encodeAscii action).map some
  | _ => .error .attributeError

/-- One round of the loop in `add_from_json`, up to the call of `add_entry`. A table
name that differs is only reported. -/
def parseEntry (ent : Value) : Except Stop AddCall := do
  let _ ← (ent.item "table_name").mapError .raised
  let skey ← (ent.item "key").mapError .raised
  let sdata ← (ent.item "data").mapError .raised
  let saction ← (ent.item "action").mapError .raised
  let action ← (encodeAction saction).mapError .raised
  let keyItems ← skey.items.mapError .raised
  let key ← (encodeNames keyItems).mapError .raised
  let dataItems ← sdata.items.mapError .raised
  let data ← (encodeNames dataItems).mapError .raised
  let data := data.map fun p => (p.1, t.registerValue action p.1 p.2)
  let (keys, data) ← t.parseStrInput x key data action
  .ok ⟨keys, data, action⟩

/-- The calls of `add_entry`; the loop is left after one that is rejected. -/
def addEntries (accepts : AddCall → Bool) : List Value → List AddCall
  | [] => []
  | ent :: ents =>
    match t.parseEntry x ent with
    | .ok call => call :: if accepts call then addEntries accepts ents else []
    | .error _ => []

/-- `add_from_json`, for a driver that accepts some calls. -/
def addFromJson (accepts : AddCall → Bool) (text : String) : Except Raised (List AddCall) := do
  let jents ← loads text
  .ok (match jents.iterate with
    | some ents => t.addEntries x accepts ents
    | none => [])

end Table

/-- The text under which an entry is filed. -/
def Entry.actStr (e : Entry) : String := e.action.getD ""

/-- `TableEntryDumper.entries` after it was handed these entries. -/
def dumper (es : List Entry) : Dict (List Entry) :=
  es.foldl (fun entries e => entries.set e.actStr ((entries.get? e.actStr).getD [] ++ [e])) .empty

/-- Each entry with the text it is filed under, in the order of the dump. -/
def filed (entries : Dict (List Entry)) : List (String × Entry) :=
  entries.entries.flatMap fun group => group.2.map fun e => (group.1, e)

namespace Table

variable (x : Externs) (t : Table)

/-- A `TableEntry` of `dump_entry_objs`, whose loop looks up every key field. -/
def entryObj (p : String × Entry) : Except Raised Entry :=
  if ∀ name ∈ t.keyFields.keys, (p.2.keyContent.get? name).isSome then
    .ok { p.2 with action := if p.1 = "" then none else some p.1 }
  else .error .keyError

/-- `dump_json` -/
def dumpJson (entries : Dict (List Entry)) : Except Raised String := do
  let objs ← (filed entries).mapM t.entryObj
  let raws ← objs.mapM fun e => t.rawEntry x e.keyContent e.dataContent e.action
  .ok (dumps (.list raws))

end Table
end Tdi.Cli
