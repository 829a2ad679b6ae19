import Tdi.Cli.PythonNames
import Tdi.Foundation.NamedTree
import Tdi.Foundation.Dict

/-!
# The command tree

`make_deep_tree` files the tables of a program under its node, the greatest name
first. The components of a name lead down from the program's node, and nodes are
made on the way where none is found. An object's own name has no dollar sign, yet
it is compared with the component as the table spells it. A table that finds a node
under its last component takes the node's place and adopts its children.

The children of a leaf are a dictionary that also holds the commands of the table.
A command overwrites a child of its name. Here the objects and the commands are
listed apart, and no key is in both lists. The methods of a leaf are compiled while
it is made, and one that Python refuses ends the whole run.
-/
namespace Tdi.Cli.CommandTree

open Foundation NamedTree

section Names

/-- `table_name.split('.')` -/
def split (tableName : String) : List String := (tableName.toList.splitOn '.').map String.ofList

/-- `name.replace('$', '')` -/
def withoutDollars (name : String) : String := String.ofList (name.toList.filter (· ≠ '$'))

/-- What the objects of the tree are built with. A child is also bound as an attribute of its
parent, and one of these names would replace a part of the object itself. -/
def objectAttributes : List String :=
  ["__class__", "__dict__", "__weakref__", "_add_child", "_adds", "_build_names", "_c_tbl",
   "_children", "_cintf", "_commands", "_create_add", "_create_add_with_action",
   "_create_attributes", "_create_del", "_create_entry", "_create_entry_with_action",
   "_create_get", "_create_get_default", "_create_get_handle", "_create_get_key", "_create_mod",
   "_create_mod_inc", "_create_mod_inc_with_action", "_create_mod_with_action",
   "_create_operations", "_create_reset_default", "_create_set_default",
   "_create_set_default_with_action", "_dels", "_entries", "_get_children", "_get_full_leaf_info",
   "_get_name", "_gets", "_init_string_choices", "_init_table_methods", "_make_core_method_strs",
   "_make_param_names", "_mods", "_mods_inc", "_name", "_parent_node", "_set_doc",
   "_set_docstring", "_set_dynamic_method", "_set_name"]

/-- A name that an object can take as an attribute. -/
def canBind (s : String) : Bool :=
  isidentifier s && !(pythonKeywords ++ objectAttributes).contains s

/-- Apart from dollar signs the components are identifiers. -/
structure TableName where
  text : String
  components : ((split text).all fun p => canBind (withoutDollars p)) = true

end Names

structure Action where
  name : String
  /-- `("@defaultonly","") in annotations` -/
  defaultOnly : Bool

/-- `TdiTable`, as far as the tree and the commands of a leaf read it. -/
structure TdiTable where
  name : TableName
  tableReady : Bool
  supportedCommands : List String
  actions : List Action
  hasConstDefaultAction : Bool
  stringChoices : Dict (List String)
  /-- `exec` takes every definition that `_init_table_methods` writes for the table. -/
  definitionsCompile : Bool

namespace TdiTable

variable (t : TdiTable)

def prefs : List String := split t.name.text

/-- The names under which the objects on the way to the table are shown. -/
def displayed : List String := t.prefs.map withoutDollars

/-- A method that is only there for a supported command. -/
def method (methodName : String) : List String :=
  if methodName ∈ t.supportedCommands then [methodName] else []

/-- The part of an action's name after the last dot. -/
def strname (fullStrname : String) : String := withoutDollars ((split fullStrname).getLastD "")

def methodWithAction (command : String) (a : Action) : List String :=
  if command ∈ t.supportedCommands then [command ++ "_with_" ++ strname a.name] else []

def supportsEntry : Prop := "add" ∈ t.supportedCommands ∨ "mod" ∈ t.supportedCommands

instance : Decidable t.supportsEntry := inferInstanceAs (Decidable (_ ∨ _))

def actionMethods (a : Action) : List String :=
  (if t.hasConstDefaultAction then [] else t.methodWithAction "set_default" a) ++
  if a.defaultOnly then []
  else
    t.methodWithAction "mod" a ++ t.methodWithAction "mod_inc" a ++
    (if t.supportsEntry then ["entry_with_" ++ strname a.name] else []) ++
    t.methodWithAction "add" a

/-- The methods of a table without actions. -/
def directMethods : List String :=
  (if t.hasConstDefaultAction then [] else t.method "set_default") ++ t.method "mod" ++
    t.method "mod_inc" ++ (if t.supportsEntry then ["entry"] else []) ++ t.method "add"

/-- What `_init_table_methods` files in the dictionary of the leaf. -/
def initTableMethods : List String :=
  t.method "get" ++ t.method "get_handle" ++ t.method "delete" ++
  t.actions.flatMap t.actionMethods ++
  (if t.actions.length = 0 then t.directMethods else []) ++
  (if t.hasConstDefaultAction then [] else t.method "reset_default") ++
  t.method "get_default" ++
  ["operation_register_sync", "operation_counter_sync", "operation_hit_state_update"].flatMap
    t.method ++
  t.method "get_key"

/-- What a leaf assigns under, whatever is there. -/
def methodNames : List String :=
  t.initTableMethods ++ if 0 < t.stringChoices.entries.length then ["string_choices"] else []

/-- The supported commands that are methods of the class. -/
def classMethods : List String :=
  t.supportedCommands.filter fun cmd => cmd ∈ ["info", "clear", "dump", "add_from_json"]

end TdiTable

inductive Kind where
  | node
  | leaf (cTbl : TdiTable) (commands : List String)

/-- `TDINode` and `TDILeaf` -/
abbrev CliObject := NamedTree String Kind

/-- The name that `_set_name` keeps is shown without its dollar signs. -/
def tdiNode (name : String) : CliObject := mk (withoutDollars name) .node []

/-- The commands `dump` and `info` of every node. -/
def nodeCommands : List String := ["dump", "info"]

/-- The adopted children come first. The methods of the table then overwrite, and a supported
command that is a method of the class gives way to a child bound under its name. -/
def leafObject (name : String) (cTbl : TdiTable) (children : List CliObject) : CliObject :=
  mk (withoutDollars name)
    (.leaf cTbl (cTbl.methodNames ++
      cTbl.classMethods.filter fun cmd => cmd ∉ children.map NamedTree.name))
    ((children.foldl assign []).filter fun c => c.name ∉ cTbl.methodNames)

inductive TreeError where
  /-- The keys of a leaf's dictionary are strings, without a `_name`. -/
  | attributeError
  /-- `_set_dynamic_method` raises again what `exec` raised. -/
  | methodError

def tdiLeaf (name : String) (cTbl : TdiTable) (children : List CliObject) :
    Except TreeError CliObject :=
  if cTbl.definitionsCompile then .ok (leafObject name cTbl children) else .error .methodError

/-- A loop over `_children` that reads `_name` raises for the dictionary of a leaf, unless that
is empty. -/
def nodesOf (x : CliObject) : Except TreeError (List CliObject) :=
  match x.label with
  | .node => .ok x.children
  | .leaf _ [] => if x.children = [] then .ok [] else .error .attributeError
  | .leaf _ (_ :: _) => .error .attributeError

/-- The walk to the parent of a table, and what is done there. Below a leaf new objects have no
parent. They are made all the same, and the tree stays as it is. -/
def updateNodeTree (add : CliObject → Except TreeError CliObject) :
    List String → CliObject → Except TreeError CliObject
  | [], parentNode => add parentNode
  | p :: prefs, parentNode =>
    match parentNode.label with
    | .leaf _ _ => do
      let _ ← nodesOf parentNode
      let _ ← updateNodeTree add prefs (tdiNode p)
      .ok parentNode
    | .node =>
      (updateFirst (fun child => child.name = p) (updateNodeTree add prefs)
        (updateNodeTree add prefs (tdiNode p)) parentNode.children).map parentNode.withChildren

/-- A table becomes a new leaf, or takes the place of the object under its last component. -/
def addLeaf (t : TdiTable) (name : String) (parentNode : CliObject) : Except TreeError CliObject :=
  match parentNode.label with
  | .leaf _ _ => (tdiLeaf name t []).map fun _ => parentNode
  | .node =>
    match parentNode.children.find? fun c => c.name = name with
    | none => (tdiLeaf name t []).map fun leaf =>
      parentNode.withChildren (parentNode.children ++ [leaf])
    | some c => do
      let adopted ← nodesOf c
      let leaf ← tdiLeaf name t adopted
      .ok (parentNode.withChildren
        ((parentNode.children.eraseP fun c => c.name = name) ++ [leaf]))

def addTable (p4Node : CliObject) (t : TdiTable) : Except TreeError CliObject :=
  updateNodeTree (if t.tableReady then addLeaf t (t.prefs.getLastD "") else .ok)
    t.prefs.dropLast p4Node

/-- `sorted(tdi_info.tables.items(), reverse=True)` -/
def sortedTables (tables : List TdiTable) : List TdiTable :=
  tables.insertionSort fun s t => t.name.text ≤ s.name.text

/-- The loop of `make_deep_tree` over the tables, without fixed nodes. -/
def makeDeepTree (p4Name : String) (tables : List TdiTable) : Except TreeError CliObject :=
  (sortedTables tables).foldlM addTable (tdiNode p4Name)

/-- The object that `_get_children` has under a name. A node's commands overwrite its children,
and of two children with one name the later is kept. -/
def getChild (x : CliObject) (k : String) : Option CliObject :=
  match x.label with
  | .node => if k ∈ nodeCommands then none else x.children.reverse.find? fun c => c.name = k
  | .leaf _ _ => x.children.find? fun c => c.name = k

def follow (x : CliObject) : List String → Option CliObject
  | [] => some x
  | k :: q => (getChild x k).bind fun c => follow c q

/-- A leaf whose table is that table. -/
def IsLeafOf (t : TdiTable) (x : CliObject) : Prop := ∃ commands, x.label = .leaf t commands

/-- No two objects are shown under one name, and every table is found under its own. -/
structure EveryTableFound (tables : List TdiTable) (p4Node : CliObject) : Prop where
  distinct : p4Node.Distinct
  found : ∀ t ∈ tables, ∃ x, follow p4Node t.displayed = some x ∧ IsLeafOf t x

end Tdi.Cli.CommandTree
