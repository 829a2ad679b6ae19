import Tdi.Info.TableViews

/-!
# The order of the schema files

A program is loaded by reading its schema files into the maps of the parser and
building its `TdiInfo` from them. Names that are distinct across the files make
the maps, and with them the program, independent of the order of the files.
-/
namespace Tdi.Info

open Std Foundation Json

section

variable {Node Table : Type} (lib : CjsonApi Node) (mapper : TdiInfoMapper)
  (cjsonParse : String → Cjson Node) (files : String → Option String)

/-- `parseTdiInfo`, then the constructor of `TdiInfo`, unless that would meet a null table. -/
def loadTdiInfo (p4Name : String) (factory : TableFactory Table) (maps : SchemaMaps)
    (paths : List String) : Option (TdiInfo Table) :=
  (parseTdiInfo lib mapper cjsonParse files paths maps).2.result?.map fun parser =>
    TdiInfo.makeTdiInfo p4Name parser.toTdiInfoParser factory

/-- All files can be opened, all tables parse, and no name is used twice. -/
structure WellListed (paths : List String) : Prop where
  readable : ∀ path ∈ paths, (files path).isSome = true
  tables_distinct :
    ((paths.flatMap (fileTables lib mapper cjsonParse files)).map Prod.fst).Nodup
  learns_distinct : ((paths.flatMap (fileLearns lib cjsonParse files)).map Prod.fst).Nodup
  tables_parse : ∀ path ∈ paths, ∀ e ∈ fileTables lib mapper cjsonParse files path,
    e.2.isSome = true

variable {lib mapper cjsonParse files} {paths paths' : List String}

theorem isSome_result?_iff (maps : SchemaMaps) :
    maps.result?.isSome = true ↔
      ∀ (name : String) (entry : Option TableInfo),
        maps.tableInfoMap[name]? = some entry → entry.isSome = true := by
  unfold SchemaMaps.result?
  split_ifs with h
  · refine iff_of_true rfl fun name entry hentry => h (name, entry) ?_
    rwa [ExtTreeMap.mem_toList_iff_getElem?_eq_some]
  · refine iff_of_false nofun fun hall => h fun e he => hall e.1 e.2 ?_
    rwa [← ExtTreeMap.mem_toList_iff_getElem?_eq_some]

theorem WellListed.isSome_result? (h : WellListed lib mapper cjsonParse files paths)
    {maps : SchemaMaps} (hmaps : maps.result?.isSome = true) :
    (parseTdiInfo lib mapper cjsonParse files paths maps).2.result?.isSome = true := by
  rw [isSome_result?_iff] at hmaps ⊢
  intro name entry hentry
  rw [(parseTdiInfo_spec lib mapper cjsonParse files paths maps).2.1, readPaths_eq_self h.readable,
    getElem?_insertMany, Option.or_eq_some_iff] at hentry
  rcases hentry with hlast | ⟨-, hold⟩
  · obtain ⟨path, hpath, he⟩ := List.mem_flatMap.mp (mem_of_lastValue hlast)
    exact h.tables_parse path hpath _ he
  · exact hmaps name entry hold

/-- Read in any order, the files leave the same maps. -/
theorem WellListed.maps_perm (h : WellListed lib mapper cjsonParse files paths)
    (hperm : paths.Perm paths') (maps : SchemaMaps) :
    (parseTdiInfo lib mapper cjsonParse files paths maps).2 =
      (parseTdiInfo lib mapper cjsonParse files paths' maps).2 := by
  obtain ⟨-, htables, hlearns⟩ := parseTdiInfo_spec lib mapper cjsonParse files paths maps
  obtain ⟨-, htables', hlearns'⟩ := parseTdiInfo_spec lib mapper cjsonParse files paths' maps
  have hread' : ∀ path ∈ paths', (files path).isSome = true :=
    fun path hpath => h.readable path (hperm.mem_iff.mpr hpath)
  rw [readPaths_eq_self h.readable] at htables hlearns
  rw [readPaths_eq_self hread'] at htables' hlearns'
  apply SchemaMaps.ext
  · rw [htables, htables']
    exact insertMany_perm h.tables_distinct (hperm.flatMap_right _)
  · rw [hlearns, hlearns']
    exact insertMany_perm h.learns_distinct (hperm.flatMap_right _)

/-- The order of the files shows in no answer of the loaded program. -/
theorem loadTdiInfo_perm (h : WellListed lib mapper cjsonParse files paths)
    (hperm : paths.Perm paths') (maps : SchemaMaps) (hmaps : maps.result?.isSome = true)
    (p4Name : String) (factory : TableFactory Table) :
    ∃ info info',
      loadTdiInfo lib mapper cjsonParse files p4Name factory maps paths = some info ∧
      loadTdiInfo lib mapper cjsonParse files p4Name factory maps paths' = some info' ∧
      info.tablesGet (some []) = info'.tablesGet (some []) ∧
      (∀ name, info.tableFromNameGet name = info'.tableFromNameGet name) ∧
      (∀ id, info.tableFromIdGet id = info'.tableFromIdGet id) ∧
      (∀ name, info.learnFromNameGet name = info'.learnFromNameGet name) ∧
      ∀ id, info.learnFromIdGet id = info'.learnFromIdGet id := by
  obtain ⟨parser, hparser⟩ := Option.isSome_iff_exists.mp (h.isSome_result? hmaps)
  have hload : loadTdiInfo lib mapper cjsonParse files p4Name factory maps paths =
      some (TdiInfo.makeTdiInfo p4Name parser.toTdiInfoParser factory) := by
    rw [loadTdiInfo, hparser, Option.map_some]
  have hsame : loadTdiInfo lib mapper cjsonParse files p4Name factory maps paths' =
      some (TdiInfo.makeTdiInfo p4Name parser.toTdiInfoParser factory) := by
    rw [← hload, loadTdiInfo, loadTdiInfo, h.maps_perm hperm maps]
  exact ⟨_, _, hload, hsame, rfl, fun _ => rfl, fun _ => rfl, fun _ => rfl, fun _ => rfl⟩

end

section Examples

open Document

/-- Two files with one table each, whose ids repeat and whose short names collide. -/
def pipeSchema (content : String) : Cjson Document :=
  some (documentOf [named 1 (content ++ ".forward") []])

theorem wellListed_pipes : WellListed api .empty pipeSchema some ["SI", "SE"] where
  readable := by simp
  tables_distinct := by
    have hnames : (["SI", "SE"].flatMap (fileTables api .empty pipeSchema some)).map Prod.fst =
        ["SI.forward", "SE.forward"] := rfl
    rw [hnames]
    decide
  learns_distinct := by
    have hnone : ["SI", "SE"].flatMap (fileLearns api pipeSchema some) = [] := rfl
    simp [hnone]
  tables_parse := by decide

theorem loadTdiInfo_perm_pipes :
    ∃ info info',
      loadTdiInfo api .empty pipeSchema some "program" plainFactory .empty ["SI", "SE"] =
        some info ∧
      loadTdiInfo api .empty pipeSchema some "program" plainFactory .empty ["SE", "SI"] =
        some info' ∧
      info.tableFromIdGet 1 = info'.tableFromIdGet 1 := by
  have hnew : SchemaMaps.empty.result?.isSome = true := by decide
  obtain ⟨info, info', hinfo, hinfo', -, -, hid, -⟩ :=
    loadTdiInfo_perm wellListed_pipes (List.Perm.swap ..) .empty hnew "program" plainFactory
  exact ⟨info, info', hinfo, hinfo', hid 1⟩

end Examples
end Tdi.Info
