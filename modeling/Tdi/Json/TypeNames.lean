import Tdi.CFrontend.KeyValues
import Tdi.Foundation.Runs
import Tdi.Json.Document
import Tdi.Json.InfoParser

/-!
# Names of enumerators

A mapper starts with the names of the core match types; an architecture or a target adds
names of its own. A name that nobody added is taken for the number that begins the core
range, and the first core match type has that number.
-/
namespace Tdi.Json

open Std Foundation Cjson CFrontend

/-- The body of the `*EnumMapAdd` functions: a name that is there already keeps its value. -/
def enumMapAdd (map : ExtTreeMap String EnumCode) (str : String) (type : EnumCode) :
    TdiStatus × ExtTreeMap String EnumCode :=
  if str ∈ map then (.alreadyExists, map) else (.success, map.insert str type)

theorem getElem?_enumMapAdd {map : ExtTreeMap String EnumCode} {s : String} {c : EnumCode}
    (h : map[s]? = some c) (str : String) (type : EnumCode) :
    (enumMapAdd map str type).2[s]? = some c := by
  unfold enumMapAdd
  split_ifs with hmem
  · exact h
  · rw [ExtTreeMap.getElem?_insert, if_neg, h]
    intro heq
    rw [LawfulEqCmp.eq_of_compare heq] at hmem
    exact hmem (ExtTreeMap.mem_iff_isSome_getElem?.mpr (by simp [h]))

/-- The map to which a name is added. -/
inductive EnumMap where
  | tableType
  | matchType
  | operationsType
  | attributesType
  deriving DecidableEq, Repr

/-- A call of one of the functions, by the constructor of a derived mapper. -/
structure Registration where
  map : EnumMap
  str : String
  type : EnumCode
  deriving DecidableEq, Repr

namespace TdiInfoMapper

def tableEnumMapAdd (mapper : TdiInfoMapper) (str : String) (type : EnumCode) : TdiInfoMapper :=
  { mapper with tableEMap := (enumMapAdd mapper.tableEMap str type).2 }

def matchEnumMapAdd (mapper : TdiInfoMapper) (str : String) (type : EnumCode) : TdiInfoMapper :=
  { mapper with matchEMap := (enumMapAdd mapper.matchEMap str type).2 }

def operationsEnumMapAdd (mapper : TdiInfoMapper) (str : String) (type : EnumCode) :
    TdiInfoMapper :=
  { mapper with operationsEMap := (enumMapAdd mapper.operationsEMap str type).2 }

def attributesEnumMapAdd (mapper : TdiInfoMapper) (str : String) (type : EnumCode) :
    TdiInfoMapper :=
  { mapper with attributesEMap := (enumMapAdd mapper.attributesEMap str type).2 }

/-- The constructor of `TdiInfoMapper`. -/
def core : TdiInfoMapper :=
  let mapper := empty.matchEnumMapAdd "Exact" matchTypeExact
  let mapper := mapper.matchEnumMapAdd "Ternary" matchTypeTernary
  let mapper := mapper.matchEnumMapAdd "LPM" matchTypeLpm
  mapper.matchEnumMapAdd "Range" matchTypeRange

def register (mapper : TdiInfoMapper) (r : Registration) : TdiInfoMapper :=
  match r.map with
  | .tableType => mapper.tableEnumMapAdd r.str r.type
  | .matchType => mapper.matchEnumMapAdd r.str r.type
  | .operationsType => mapper.operationsEnumMapAdd r.str r.type
  | .attributesType => mapper.attributesEnumMapAdd r.str r.type

/-- A mapper of an architecture or a target. -/
def withAdditions (additions : List Registration) : TdiInfoMapper := run register core additions

theorem exact_core : core.matchEMap["Exact"]? = some matchTypeExact := by decide

/-- No addition takes the name of the first core match type away. -/
theorem exact_withAdditions (additions : List Registration) :
    (withAdditions additions).matchEMap["Exact"]? = some matchTypeExact := by
  refine run_invariant (I := fun mapper : TdiInfoMapper =>
    mapper.matchEMap["Exact"]? = some matchTypeExact) ?_ exact_core additions
  intro mapper r h
  unfold register
  cases r.map with
  | matchType => exact getElem?_enumMapAdd h r.str r.type
  | tableType => exact h
  | operationsType => exact h
  | attributesType => exact h

end TdiInfoMapper

section Fallback

/-- The codes of a list of names: a name that is not in the map gets the fallback. -/
def codesOf (map : ExtTreeMap String EnumCode) (fallback : EnumCode) (names : List String) :
    Finset EnumCode :=
  (names.map fun name => (map[name]?).getD fallback).toFinset

/-- Each code in the list that some name is registered for has such a name in the list. -/
def OnlyListed (map : ExtTreeMap String EnumCode) (names : List String)
    (codes : Finset EnumCode) : Prop :=
  ∀ c ∈ codes, (∃ name : String, map[name]? = some c) → ∃ name ∈ names, map[name]? = some c

/-- The fallback passes for a registered code exactly when it is one, some name of the list is
unknown, and no name of the list stands for it. -/
theorem onlyListed_codesOf_iff (map : ExtTreeMap String EnumCode) (fallback : EnumCode)
    (names : List String) :
    OnlyListed map names (codesOf map fallback names) ↔
      (∀ name : String, map[name]? ≠ some fallback) ∨ (∀ name ∈ names, name ∈ map) ∨
        ∃ name ∈ names, map[name]? = some fallback := by
  constructor
  · intro h
    by_contra hnot
    simp only [not_or, not_forall, not_exists, not_not, not_and] at hnot
    obtain ⟨⟨registered, hreg⟩, ⟨unknown, hmem, hunknown⟩, hnone⟩ := hnot
    have hfall : map[unknown]? = none := by simpa using hunknown
    have hcode : fallback ∈ codesOf map fallback names := by
      rw [codesOf, List.mem_toFinset, List.mem_map]
      exact ⟨unknown, hmem, by simp [hfall]⟩
    obtain ⟨name, hname, hcode⟩ := h fallback hcode ⟨registered, hreg⟩
    exact hnone name hname hcode
  · intro h c hc hreg
    rw [codesOf, List.mem_toFinset, List.mem_map] at hc
    obtain ⟨name, hname, rfl⟩ := hc
    cases hval : map[name]? with
    | some c => exact ⟨name, hname, by simp [hval]⟩
    | none =>
      rw [hval] at hreg
      rcases h with hnever | hall | hlisted
      · obtain ⟨name', hname'⟩ := hreg
        exact absurd hname' (hnever name')
      · have hmem := ExtTreeMap.mem_iff_isSome_getElem?.mp (hall name hname)
        simp [hval] at hmem
      · exact hlisted

end Fallback

section Tables

variable {Node : Type} (lib : CjsonApi Node) (additions : List Registration)

def matchTypeName (keyNode : Cjson Node) : String := toStr lib (item lib keyNode "match_type")

def operationNames (tableTdi : Cjson Node) : List String :=
  getCjsonChildStringVec lib (item lib tableTdi "supported_operations")

def attributeNames (tableTdi : Cjson Node) : List String :=
  getCjsonChildStringVec lib (item lib tableTdi "attributes")

/-- A match type that is not registered is not taken for one that is. -/
def KeyKeepsType (mapper : TdiInfoMapper) (keyNode : Cjson Node) : Prop :=
  matchTypeName lib keyNode ∉ mapper.matchEMap →
    ∀ name : String, mapper.matchEMap[name]? ≠ some (parseKeyField lib mapper keyNode).matchType

theorem keyKeepsType_iff (keyNode : Cjson Node) :
    KeyKeepsType lib (TdiInfoMapper.withAdditions additions) keyNode ↔
      matchTypeName lib keyNode ∈ (TdiInfoMapper.withAdditions additions).matchEMap := by
  constructor
  · intro h
    by_contra hunknown
    have htype : (parseKeyField lib (TdiInfoMapper.withAdditions additions) keyNode).matchType =
        matchTypeExact := by
      change ((TdiInfoMapper.withAdditions additions).matchEMap[matchTypeName lib keyNode]?).getD
        matchTypeCore = _
      rw [ExtTreeMap.getElem?_eq_none hunknown]
      rfl
    refine h hunknown "Exact" ?_
    rw [htype]
    exact TdiInfoMapper.exact_withAdditions additions
  · exact fun hknown hunknown => absurd hknown hunknown

theorem typeSets_parseTable {mapper : TdiInfoMapper} {tableTdi : Cjson Node} {info : TableInfo}
    (h : parseTable lib mapper tableTdi = some info) :
    info.operationsTypeSet =
        codesOf mapper.operationsEMap operationsTypeCore (operationNames lib tableTdi) ∧
      info.attributesTypeSet =
        codesOf mapper.attributesEMap attributesTypeCore (attributeNames lib tableTdi) := by
  simp only [parseTable, Option.bind_eq_bind, Option.bind_eq_some_iff, Option.pure_def,
    Option.some_inj] at h
  obtain ⟨keyMap, -, actionMap, -, notificationMap, -, rfl⟩ := h
  exact ⟨rfl, rfl⟩

/-- A key keeps a match type that nobody registered apart from the registered ones exactly
when there is no such match type. A set of operations or attributes has only registered ones
that are listed exactly when the fallback is no registered one, every name is registered, or
one that stands for the fallback is listed. -/
theorem typeNames_kept_iff (additions : List Registration) :
    let mapper := TdiInfoMapper.withAdditions additions
    (∀ keyNode, KeyKeepsType lib mapper keyNode ↔
      matchTypeName lib keyNode ∈ mapper.matchEMap) ∧
    ∀ tableTdi info, parseTable lib mapper tableTdi = some info →
      (OnlyListed mapper.operationsEMap (operationNames lib tableTdi) info.operationsTypeSet ↔
        (∀ name : String, mapper.operationsEMap[name]? ≠ some operationsTypeCore) ∨
          (∀ name ∈ operationNames lib tableTdi, name ∈ mapper.operationsEMap) ∨
          ∃ name ∈ operationNames lib tableTdi,
            mapper.operationsEMap[name]? = some operationsTypeCore) ∧
      (OnlyListed mapper.attributesEMap (attributeNames lib tableTdi) info.attributesTypeSet ↔
        (∀ name : String, mapper.attributesEMap[name]? ≠ some attributesTypeCore) ∨
          (∀ name ∈ attributeNames lib tableTdi, name ∈ mapper.attributesEMap) ∨
          ∃ name ∈ attributeNames lib tableTdi,
            mapper.attributesEMap[name]? = some attributesTypeCore) := by
  intro mapper
  refine ⟨keyKeepsType_iff lib additions, ?_⟩
  intro tableTdi info h
  obtain ⟨hoperations, hattributes⟩ := typeSets_parseTable lib h
  rw [hoperations, hattributes]
  exact ⟨onlyListed_codesOf_iff _ _ _, onlyListed_codesOf_iff _ _ _⟩

/-- A table with one operation, of a target that registers another. -/
def syncTable (operation : String) : Document :=
  .named 1 "pipe.ports" [("supported_operations", .array [.string operation])]

def syncAdditions : List Registration := [⟨.operationsType, "SyncCounters", operationsTypeCore⟩]

theorem typeNames_kept_syncTable :
    ∃ info, parseTable Document.api (TdiInfoMapper.withAdditions syncAdditions)
        (some (syncTable "SyncCounters")) = some info ∧
      OnlyListed (TdiInfoMapper.withAdditions syncAdditions).operationsEMap
        (operationNames Document.api (some (syncTable "SyncCounters")))
        info.operationsTypeSet := by
  have hsome : (parseTable Document.api (TdiInfoMapper.withAdditions syncAdditions)
      (some (syncTable "SyncCounters"))).isSome = true := by decide +kernel
  obtain ⟨info, hinfo⟩ := Option.isSome_iff_exists.mp hsome
  refine ⟨info, hinfo, ?_⟩
  refine (((typeNames_kept_iff Document.api syncAdditions).2 _ _ hinfo).1).mpr ?_
  exact .inr (.inr ⟨"SyncCounters", by decide +kernel, by decide +kernel⟩)

/-- The name `Exakt` is not registered, and a key of that type is an `Exact` one; the operation
`SyncPorts` is not registered, and a table that lists it has the operation `SyncCounters`. -/
theorem unknown_names_taken :
    ¬KeyKeepsType Document.api (TdiInfoMapper.withAdditions [])
        (some (.object [("match_type", .string "Exakt")])) ∧
      ∃ info, parseTable Document.api (TdiInfoMapper.withAdditions syncAdditions)
          (some (syncTable "SyncPorts")) = some info ∧
        ¬OnlyListed (TdiInfoMapper.withAdditions syncAdditions).operationsEMap
          (operationNames Document.api (some (syncTable "SyncPorts")))
          info.operationsTypeSet := by
  constructor
  · rw [keyKeepsType_iff]
    decide +kernel
  · have hsome : (parseTable Document.api (TdiInfoMapper.withAdditions syncAdditions)
        (some (syncTable "SyncPorts"))).isSome = true := by decide +kernel
    obtain ⟨info, hinfo⟩ := Option.isSome_iff_exists.mp hsome
    refine ⟨info, hinfo, ?_⟩
    rw [(typeSets_parseTable Document.api hinfo).1]
    intro honly
    obtain ⟨name, hname, hcode⟩ := honly operationsTypeCore (by decide +kernel)
      ⟨"SyncCounters", by decide +kernel⟩
    obtain rfl : name = "SyncPorts" := by
      have hnames : operationNames Document.api (some (syncTable "SyncPorts")) = ["SyncPorts"] := by
        decide +kernel
      simpa [hnames] using hname
    revert hcode
    decide +kernel

end Tables
end Tdi.Json
