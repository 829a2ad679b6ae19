import Tdi.Foundation.LastEntry
import Tdi.Info.TdiInfo
import Tdi.Json.ParseTable

/-!
# Schema files

`parseTdiInfo` opens the listed files one after the other and assigns every table
and every learn it finds to its name. It stops at the first file that cannot be
opened, and a table that does not parse is assigned as a null pointer.
-/
namespace Tdi.Info

open Std Foundation Json Cjson

/-- The maps of `TdiInfoParser`; a null table pointer is `none`. -/
@[ext]
structure SchemaMaps where
  tableInfoMap : ExtTreeMap String (Option TableInfo)
  learnInfoMap : ExtTreeMap String LearnInfo
  tables_named : ∀ (name : String) (info : TableInfo),
    tableInfoMap[name]? = some (some info) → info.name = name
  learns_named : ∀ (name : String) (info : LearnInfo),
    learnInfoMap[name]? = some info → info.name = name

namespace SchemaMaps

/-- A parser that has read nothing. -/
def empty : SchemaMaps := ⟨∅, ∅, by simp, by simp⟩

end SchemaMaps

section

variable {Node : Type} (lib : CjsonApi Node) (mapper : TdiInfoMapper)

/-- The assignments to the table map that one document gives rise to. -/
def schemaTables (root : Cjson Node) : List (String × Option TableInfo) :=
  (getCjsonChildVec lib (item lib root "tables")).map fun table =>
    (toStr lib (item lib table "name"), parseTable lib mapper table)

def schemaLearns (root : Cjson Node) : List (String × LearnInfo) :=
  (getCjsonChildVec lib (item lib root "learn_filters")).map fun learn =>
    (toStr lib (item lib learn "name"), parseLearn lib learn)

theorem name_parseTable {t : Cjson Node} {info : TableInfo}
    (h : parseTable lib mapper t = some info) : info.name = toStr lib (item lib t "name") := by
  simp only [parseTable, bind, Option.bind_eq_some_iff] at h
  obtain ⟨_, -, _, -, _, -, hinfo⟩ := h
  cases hinfo
  rfl

theorem name_of_mem_schemaTables {root : Cjson Node} {name : String} {info : TableInfo}
    (h : (name, some info) ∈ schemaTables lib mapper root) : info.name = name := by
  obtain ⟨t, -, ht⟩ := List.mem_map.mp h
  rw [Prod.mk.injEq] at ht
  rw [← ht.1]
  exact name_parseTable lib mapper ht.2

theorem name_of_mem_schemaLearns {root : Cjson Node} {name : String} {info : LearnInfo}
    (h : (name, info) ∈ schemaLearns lib root) : info.name = name := by
  obtain ⟨t, -, ht⟩ := List.mem_map.mp h
  rw [Prod.mk.injEq] at ht
  rw [← ht.1, ← ht.2]
  rfl

/-- The two loops over the tables and the learns of one file. -/
def SchemaMaps.addFile (maps : SchemaMaps) (root : Cjson Node) : SchemaMaps where
  tableInfoMap := maps.tableInfoMap.insertMany (schemaTables lib mapper root)
  learnInfoMap := maps.learnInfoMap.insertMany (schemaLearns lib root)
  tables_named := by
    intro name info h
    rw [getElem?_insertMany, Option.or_eq_some_iff] at h
    rcases h with hlast | ⟨-, hold⟩
    · exact name_of_mem_schemaTables lib mapper (mem_of_lastValue hlast)
    · exact maps.tables_named name info hold
  learns_named := by
    intro name info h
    rw [getElem?_insertMany, Option.or_eq_some_iff] at h
    rcases h with hlast | ⟨-, hold⟩
    · exact name_of_mem_schemaLearns lib (mem_of_lastValue hlast)
    · exact maps.learns_named name info hold

variable (cjsonParse : String → Cjson Node) (files : String → Option String)

/-- The loop over the files. A path at which no file can be opened is `none`. -/
def parseFiles : List String → SchemaMaps → TdiStatus × SchemaMaps
  | [], maps => (.success, maps)
  | tdiJsonFile :: tdiInfoFilePaths, maps =>
    match files tdiJsonFile with
    | none => (.objectNotFound, maps)
    | some content =>
      parseFiles tdiInfoFilePaths (maps.addFile lib mapper (cjsonParse content))

def parseTdiInfo (tdiInfoFilePaths : List String) (maps : SchemaMaps) : TdiStatus × SchemaMaps :=
  if tdiInfoFilePaths = [] then (.objectNotFound, maps)
  else parseFiles lib mapper cjsonParse files tdiInfoFilePaths maps

/-- The tables listed by the file at a path. -/
def fileTables (path : String) : List (String × Option TableInfo) :=
  match files path with
  | none => []
  | some content => schemaTables lib mapper (cjsonParse content)

def fileLearns (path : String) : List (String × LearnInfo) :=
  match files path with
  | none => []
  | some content => schemaLearns lib (cjsonParse content)

/-- The files that are read: those before the first that cannot be opened. -/
def readPaths (paths : List String) : List String :=
  paths.takeWhile fun path => (files path).isSome

variable {lib mapper cjsonParse files}

theorem readPaths_eq_self {paths : List String} (h : ∀ path ∈ paths, (files path).isSome = true) :
    readPaths files paths = paths := List.takeWhile_eq_self_iff.mpr h

theorem tableInfoMap_addFile (maps : SchemaMaps) {path content : String}
    (h : files path = some content) :
    (maps.addFile lib mapper (cjsonParse content)).tableInfoMap =
      maps.tableInfoMap.insertMany (fileTables lib mapper cjsonParse files path) := by
  simp only [fileTables, h]
  rfl

theorem learnInfoMap_addFile (maps : SchemaMaps) {path content : String}
    (h : files path = some content) :
    (maps.addFile lib mapper (cjsonParse content)).learnInfoMap =
      maps.learnInfoMap.insertMany (fileLearns lib cjsonParse files path) := by
  simp only [fileLearns, h]
  rfl

variable (lib mapper cjsonParse files) in
/-- What a call leaves behind: the entries of the files it read, assigned in order. -/
theorem parseFiles_spec (paths : List String) (maps : SchemaMaps) :
    ((parseFiles lib mapper cjsonParse files paths maps).1 = .success ↔
      ∀ path ∈ paths, (files path).isSome = true) ∧
    (parseFiles lib mapper cjsonParse files paths maps).2.tableInfoMap =
      maps.tableInfoMap.insertMany
        ((readPaths files paths).flatMap (fileTables lib mapper cjsonParse files)) ∧
    (parseFiles lib mapper cjsonParse files paths maps).2.learnInfoMap =
      maps.learnInfoMap.insertMany
        ((readPaths files paths).flatMap (fileLearns lib cjsonParse files)) := by
  induction paths generalizing maps with
  | nil => simp [parseFiles, readPaths]
  | cons path paths ih =>
    cases h : files path with
    | none => simp [parseFiles, readPaths, h]
    | some content =>
      have hread : readPaths files (path :: paths) = path :: readPaths files paths := by
        simp [readPaths, h]
      obtain ⟨hstatus, htables, hlearns⟩ := ih (maps.addFile lib mapper (cjsonParse content))
      simp only [parseFiles, h, hread, List.flatMap_cons, ExtTreeMap.insertMany_append]
      rw [htables, hlearns, tableInfoMap_addFile maps h, learnInfoMap_addFile maps h, hstatus]
      simp [h]

variable (lib mapper cjsonParse files) in
/-- An empty list is an error that reads nothing; otherwise the files are read. -/
theorem parseTdiInfo_spec (paths : List String) (maps : SchemaMaps) :
    ((parseTdiInfo lib mapper cjsonParse files paths maps).1 = .success ↔
      paths ≠ [] ∧ ∀ path ∈ paths, (files path).isSome = true) ∧
    (parseTdiInfo lib mapper cjsonParse files paths maps).2.tableInfoMap =
      maps.tableInfoMap.insertMany
        ((readPaths files paths).flatMap (fileTables lib mapper cjsonParse files)) ∧
    (parseTdiInfo lib mapper cjsonParse files paths maps).2.learnInfoMap =
      maps.learnInfoMap.insertMany
        ((readPaths files paths).flatMap (fileLearns lib cjsonParse files)) := by
  by_cases hnil : paths = []
  · subst hnil
    simp [parseTdiInfo, readPaths]
  · rw [parseTdiInfo, if_neg hnil]
    obtain ⟨hstatus, hmaps⟩ := parseFiles_spec lib mapper cjsonParse files paths maps
    exact ⟨by rw [hstatus]; exact ⟨fun h => ⟨hnil, h⟩, fun h => h.2⟩, hmaps⟩

end

section Trust

variable {Node : Type} (lib : CjsonApi Node) (mapper : TdiInfoMapper)
  (cjsonParse : String → Cjson Node) (files : String → Option String)

/-- An error leaves the maps as they were; a success stores an info that is not null for
every table and every learn that is listed. -/
def StatusTrusted (paths : List String) (maps : SchemaMaps) : Prop :=
  let result := parseTdiInfo lib mapper cjsonParse files paths maps
  (result.1 ≠ .success → result.2.tableInfoMap = maps.tableInfoMap ∧
    result.2.learnInfoMap = maps.learnInfoMap) ∧
  (result.1 = .success → ∀ path ∈ paths,
    (∀ e ∈ fileTables lib mapper cjsonParse files path,
      ∃ info, result.2.tableInfoMap[e.1]? = some (some info)) ∧
    ∀ e ∈ fileLearns lib cjsonParse files path, ∃ info, result.2.learnInfoMap[e.1]? = some info)

/-- Of every name, the table that is listed last parses. -/
def LastTablesParse (paths : List String) : Prop :=
  ∀ name, lastValue (paths.flatMap (fileTables lib mapper cjsonParse files)) name ≠ some none

/-- What the files before the first missing one list last under a name is what the maps
hold under it already. -/
def NothingNewRead (paths : List String) (maps : SchemaMaps) : Prop :=
  (∀ name info, lastValue
      ((readPaths files paths).flatMap (fileTables lib mapper cjsonParse files)) name = some info →
    maps.tableInfoMap[name]? = some info) ∧
  ∀ name info, lastValue
      ((readPaths files paths).flatMap (fileLearns lib cjsonParse files)) name = some info →
    maps.learnInfoMap[name]? = some info

variable {lib mapper cjsonParse files}

theorem statusTrusted_iff_of_readable {paths : List String}
    (hread : ∀ path ∈ paths, (files path).isSome = true) (maps : SchemaMaps) :
    StatusTrusted lib mapper cjsonParse files paths maps ↔
      LastTablesParse lib mapper cjsonParse files paths := by
  by_cases hnil : paths = []
  · subst hnil
    simp [StatusTrusted, LastTablesParse, parseTdiInfo]
  obtain ⟨hstatus, htables, hlearns⟩ :=
    parseTdiInfo_spec lib mapper cjsonParse files paths maps
  rw [readPaths_eq_self hread] at htables hlearns
  have hsuccess := hstatus.mpr ⟨hnil, hread⟩
  constructor
  · rintro ⟨-, htrusted⟩ name hnone
    obtain ⟨path, hpath, he⟩ := List.mem_flatMap.mp (mem_of_lastValue hnone)
    obtain ⟨info, hinfo⟩ := (htrusted hsuccess path hpath).1 _ he
    rw [htables, getElem?_insertMany, hnone] at hinfo
    cases hinfo
  · intro hlast
    refine ⟨fun h => absurd hsuccess h, fun _ path hpath => ⟨fun e he => ?_, fun e he => ?_⟩⟩
    · obtain ⟨entry, hentry⟩ := Option.isSome_iff_exists.mp (lastValue_isSome_iff.mpr
        (List.mem_map_of_mem (List.mem_flatMap.mpr ⟨path, hpath, he⟩)))
      cases entry with
      | none => exact absurd hentry (hlast e.1)
      | some info => exact ⟨info, by rw [htables, getElem?_insertMany, hentry]; rfl⟩
    · obtain ⟨info, hinfo⟩ := Option.isSome_iff_exists.mp (lastValue_isSome_iff.mpr
        (List.mem_map_of_mem (List.mem_flatMap.mpr ⟨path, hpath, he⟩)))
      exact ⟨info, by rw [hlearns, getElem?_insertMany, hinfo]; rfl⟩

theorem statusTrusted_iff_of_missing {paths : List String}
    (hmissing : ¬ ∀ path ∈ paths, (files path).isSome = true) (maps : SchemaMaps) :
    StatusTrusted lib mapper cjsonParse files paths maps ↔
      NothingNewRead lib mapper cjsonParse files paths maps := by
  obtain ⟨hstatus, htables, hlearns⟩ :=
    parseTdiInfo_spec lib mapper cjsonParse files paths maps
  have hfail : (parseTdiInfo lib mapper cjsonParse files paths maps).1 ≠ .success :=
    fun h => hmissing (hstatus.mp h).2
  simp only [StatusTrusted, NothingNewRead, ← insertMany_eq_self_iff, ← htables, ← hlearns]
  exact ⟨fun h => h.1 hfail, fun h => ⟨fun _ => h, fun h' => absurd h' hfail⟩⟩

/-- When the status of `parseTdiInfo` can be trusted. -/
theorem statusTrusted_iff (lib : CjsonApi Node) (mapper : TdiInfoMapper)
    (cjsonParse : String → Cjson Node) (files : String → Option String) (paths : List String)
    (maps : SchemaMaps) :
    StatusTrusted lib mapper cjsonParse files paths maps ↔
      if ∀ path ∈ paths, (files path).isSome = true then
        LastTablesParse lib mapper cjsonParse files paths
      else NothingNewRead lib mapper cjsonParse files paths maps := by
  split_ifs with hread
  · exact statusTrusted_iff_of_readable hread maps
  · exact statusTrusted_iff_of_missing hread maps

end Trust
section Examples

open Document

def documentOf (tables : List Document) : Document := .object [("tables", .array tables)]

def forwardSchema : Document := documentOf [named 1 "forward" []]

/-- A table whose key has two fields with one id. -/
def keyTwice : Document :=
  named 2 "twice" [("key", .array [named 1 "port" [], named 1 "vlan" []])]

/-- Three files, by their names: the third cannot be opened. -/
def schemaFiles (path : String) : Option String :=
  if path = "missing.json" then none else some path

def parseSchema (content : String) : Cjson Document :=
  if content = "twice.json" then some (documentOf [keyTwice]) else some forwardSchema

theorem tables_forward : fileTables api .empty parseSchema schemaFiles "forward.json" =
    [("forward", parseTable api .empty (some (named 1 "forward" [])))] := rfl

theorem tables_twice : fileTables api .empty parseSchema schemaFiles "twice.json" =
    [("twice", none)] := by
  have hnone : parseTable api .empty (some keyTwice) = none :=
    (parseTable_eq_none_iff ..).mpr (.inl (by decide))
  rw [← hnone]
  rfl

/-- A missing second file leaves the first one's table behind an error, and a table that
does not parse leaves a null pointer behind a success. -/
theorem status_not_trusted :
    ¬ StatusTrusted api .empty parseSchema schemaFiles ["forward.json", "missing.json"] .empty ∧
    ¬ StatusTrusted api .empty parseSchema schemaFiles ["twice.json"] .empty := by
  constructor
  · rw [statusTrusted_iff_of_missing (by decide)]
    rintro ⟨htables, -⟩
    have hread : readPaths schemaFiles ["forward.json", "missing.json"] = ["forward.json"] := by
      decide
    have hmap := htables "forward" (parseTable api .empty (some (named 1 "forward" [])))
    rw [hread, List.flatMap_singleton, tables_forward] at hmap
    simp [SchemaMaps.empty, lastValue] at hmap
  · rw [statusTrusted_iff_of_readable (by decide), LastTablesParse, List.flatMap_singleton,
      tables_twice]
    exact fun h => h "twice" rfl

end Examples
end Tdi.Info
