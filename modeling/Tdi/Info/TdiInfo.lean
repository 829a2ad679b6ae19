import Tdi.Foundation.Claims
import Tdi.Info.QualifiedName
import Tdi.Json.TableInfo

/-!
# The metadata of a program

`TdiInfo` holds the table and learn objects of a program and finds them by name
and by id. The name maps also hold the shortened names that belong to one object
only; they are built once from the maps of full names and stay with them.

Table objects come from the factory of a target, so their type is a parameter.
-/
namespace Tdi.Info

open Std Foundation Json

/-- The two schema maps of `TdiInfoParser`. -/
structure TdiInfoParser where
  tableInfoMap : ExtTreeMap String TableInfo
  learnInfoMap : ExtTreeMap String LearnInfo

structure TableFactory (Table : Type) where
  makeTable : TableInfo → Option Table
  tableInfoGet : Table → TableInfo

structure Learn where
  learnInfo : LearnInfo

section FullNames

variable {T : Type}

/-- The loops of `populateFullNameMap` over objects and names in a given order: a
name seen before is marked for removal, a new one is stored. -/
def populateInOrder (objects : List (String × T)) (names : String → List String) :
    ExtTreeMap String T :=
  (objects.foldl (fun state object =>
    (names object.1).foldl (fun state name => state.claim name object.2) state)
    Ledger.start).dropMarked

def populateFullNameMap (nameMap : ExtTreeMap String T) : ExtTreeMap String T :=
  populateInOrder nameMap.toList fun name => (generateUniqueNames name).toList

end FullNames

/-- The maps of one kind of object while the constructor fills them. -/
structure ObjectMaps (T : Type) where
  byName : ExtTreeMap String T
  byId : ExtTreeMap TdiId T

/-- One round of the constructor's loops. -/
def ObjectMaps.add {Info T : Type} (make : Info → Option T) (idGet : T → TdiId)
    (maps : ObjectMaps T) (kv : String × Info) : ObjectMaps T :=
  if kv.1 ∈ maps.byName then maps
  else
    match make kv.2 with
    | none => maps
    | some object =>
      { byName := maps.byName.insert kv.1 object
        byId :=
          if idGet object ∈ maps.byId then maps.byId
          else maps.byId.insert (idGet object) object }

structure TdiInfo (Table : Type) where
  p4Name : String
  tableMap : ExtTreeMap String Table
  fullTableMap : ExtTreeMap String Table
  tableIdMap : ExtTreeMap TdiId Table
  learnMap : ExtTreeMap String Learn
  fullLearnMap : ExtTreeMap String Learn
  learnIdMap : ExtTreeMap TdiId Learn
  invalidTableNames : ExtTreeSet String
  fullTableMap_eq : fullTableMap = populateFullNameMap tableMap
  fullLearnMap_eq : fullLearnMap = populateFullNameMap learnMap

namespace TdiInfo

variable {Table : Type}

def makeTdiInfo (p4Name : String) (parser : TdiInfoParser) (factory : TableFactory Table) :
    TdiInfo Table :=
  let tables := parser.tableInfoMap.toList.foldl
    (ObjectMaps.add factory.makeTable fun table => (factory.tableInfoGet table).id) ⟨∅, ∅⟩
  let learns := parser.learnInfoMap.toList.foldl
    (ObjectMaps.add (fun info => some ⟨info⟩) fun learn : Learn => learn.learnInfo.id) ⟨∅, ∅⟩
  { p4Name
    tableMap := tables.byName
    fullTableMap := populateFullNameMap tables.byName
    tableIdMap := tables.byId
    learnMap := learns.byName
    fullLearnMap := populateFullNameMap learns.byName
    learnIdMap := learns.byId
    invalidTableNames := ∅
    fullTableMap_eq := rfl
    fullLearnMap_eq := rfl }

variable (info : TdiInfo Table)

/-- A lookup that fails leaves the output argument alone, so only a success has one. -/
def tableFromNameGet (name : String) : Except TdiStatus Table :=
  if name ∈ info.invalidTableNames then .error .invalidArg
  else
    match info.fullTableMap[name]? with
    | none => .error .objectNotFound
    | some table => .ok table

def tableFromIdGet (id : TdiId) : Except TdiStatus Table :=
  match info.tableIdMap[id]? with
  | none => .error .objectNotFound
  | some table => .ok table

def learnFromNameGet (name : String) : Except TdiStatus Learn :=
  match info.fullLearnMap[name]? with
  | none => .error .objectNotFound
  | some learn => .ok learn

def learnFromIdGet (id : TdiId) : Except TdiStatus Learn :=
  match info.learnIdMap[id]? with
  | none => .error .objectNotFound
  | some learn => .ok learn

end TdiInfo
end Tdi.Info
