import Tdi.Json.Cjson

/-!
# Documents as values

A JSON document as a tree, with cJSON's lookups on it: keys match without regard
to case, and the items of an object are its member values. It is one instance of
the library the parser is parameterized by, used to run the parser on concrete
schemas.
-/
namespace Tdi.Json

inductive Document where
  | null
  | bool (value : Bool)
  | number (value : ℚ)
  | string (value : String)
  | array (items : List Document)
  | object (members : List (String × Document))

namespace Document

def children : Document → List Document
  | .array items => items
  | .object members => members.map Prod.snd
  | _ => []

def find (key : String) : Document → Option Document
  | .object members =>
    (members.find? fun m =>
      m.1.toList.map Char.toLower = key.toList.map Char.toLower).map Prod.snd
  | _ => none

def type : Document → NodeType
  | .null => .null
  | .bool value => if value then .true else .false
  | .number _ => .number
  | .string _ => .string
  | .array _ => .array
  | .object _ => .object

def api : CjsonApi Document where
  getObjectItem node key := node.bind (find key)
  getArraySize node := (node.map fun d => d.children.length).getD 0
  getArrayItem node i := node.bind fun d => d.children[i]?
  type := type
  valuestring d := match d with
    | .string value => value
    | _ => ""
  valuedouble d := match d with
    | .number value => value
    | _ => 0
  outOfRange32 _ := 0
  outOfRange64 _ := 0
  roundToFloat q := q

/-- An object with the two members every schema object starts with. -/
def named (id : ℚ) (name : String) (rest : List (String × Document)) : Document :=
  .object ([("id", .number id), ("name", .string name)] ++ rest)

def entryOf (wrapper : String) (d : Document) : Document := .object [(wrapper, d)]

theorem api_lawful : api.Lawful where
  getArrayItem_isSome n i := by simp [api]
  getObjectItem_none _ := rfl

end Document
end Tdi.Json
