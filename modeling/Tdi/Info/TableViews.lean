import Tdi.Info.NameResolution
import Tdi.Info.SchemaFiles

/-!
# Objects by name and by id

The constructor of `TdiInfo` enters every object it creates under its name, but
under its id only if the id is free. The two views describe the same objects when
no two of them share an id.
-/
namespace Tdi.Info

open Std Foundation Json

/-- What the constructor of `TdiInfo` reads: a parser in which no table is null. -/
structure ParserResult extends TdiInfoParser where
  tables_named : ∀ (name : String) (info : TableInfo),
    tableInfoMap[name]? = some info → info.name = name
  learns_named : ∀ (name : String) (info : LearnInfo),
    learnInfoMap[name]? = some info → info.name = name

/-- The maps of the parser as the constructor reads them, unless a table is null. -/
def SchemaMaps.result? (maps : SchemaMaps) : Option ParserResult :=
  if ∀ e ∈ maps.tableInfoMap.toList, e.2.isSome = true then
    some
      { tableInfoMap := maps.tableInfoMap.filterMap fun _ info => info
        learnInfoMap := maps.learnInfoMap
        tables_named := by
          intro name info h
          rw [ExtTreeMap.getElem?_filterMap', Option.bind_eq_some_iff] at h
          obtain ⟨entry, hentry, rfl⟩ := h
          exact maps.tables_named name info hentry
        learns_named := maps.learns_named }
  else none

namespace TdiInfo

variable {Table : Type} (info : TdiInfo Table)

/-- The tables are appended to the vector; a null pointer is `none`. -/
def tablesGet (tableVecRet : Option (List Table)) : Except TdiStatus (List Table) :=
  match tableVecRet with
  | none => .error .invalidArg
  | some tables => .ok (tables ++ info.tableMap.toList.map Prod.snd)

def learnsGet (learnVecRet : Option (List Learn)) : Except TdiStatus (List Learn) :=
  match learnVecRet with
  | none => .error .invalidArg
  | some learns => .ok (learns ++ info.learnMap.toList.map Prod.snd)

end TdiInfo

section Filling

variable {Info T : Type} (make : Info → Option T) (idGet : T → TdiId)

/-- The objects that are created for a list of entries, with the names of the entries. -/
def created (entries : List (String × Info)) : List (String × T) :=
  entries.filterMap fun kv => (make kv.2).map fun object => (kv.1, object)

/-- What the maps hold after the entries of a list: every object under its name, and
under every id that occurs one of the objects that have it. -/
structure Filled (entries : List (String × Info)) (maps : ObjectMaps T) : Prop where
  names : ∀ k t, maps.byName[k]? = some t ↔ (k, t) ∈ created make entries
  ids : ∀ i t, maps.byId[i]? = some t → idGet t = i ∧ ∃ k, (k, t) ∈ created make entries
  every_id : ∀ k t, (k, t) ∈ created make entries → idGet t ∈ maps.byId

variable {make idGet} {entries : List (String × Info)} {maps : ObjectMaps T}

theorem mem_created {k : String} {t : T} :
    (k, t) ∈ created make entries ↔ ∃ info, (k, info) ∈ entries ∧ make info = some t := by
  simp [created]

theorem key_mem_of_mem_created {k : String} {t : T} (h : (k, t) ∈ created make entries) :
    k ∈ entries.map Prod.fst := by
  obtain ⟨info, hinfo, -⟩ := mem_created.mp h
  exact List.mem_map_of_mem hinfo

theorem created_concat (entries : List (String × Info)) (kv : String × Info) :
    created make (entries ++ [kv]) =
      created make entries ++ ((make kv.2).map fun object => (kv.1, object)).toList := by
  cases h : make kv.2 <;> simp [created, h]

theorem mem_insert_if_free {m : ExtTreeMap TdiId T} {i j : TdiId} {object : T} :
    j ∈ (if i ∈ m then m else m.insert i object) ↔ j = i ∨ j ∈ m := by
  split_ifs with htaken
  · exact ⟨.inr, fun h => h.elim (fun hj => hj ▸ htaken) id⟩
  · rw [ExtTreeMap.mem_insert, LawfulEqCmp.compare_eq_iff_eq, eq_comm]

theorem of_getElem?_insert_if_free {m : ExtTreeMap TdiId T} {i j : TdiId} {object t : T}
    (h : (if i ∈ m then m else m.insert i object)[j]? = some t) :
    m[j]? = some t ∨ i = j ∧ t = object := by
  split_ifs at h with htaken
  · exact .inl h
  · rw [ExtTreeMap.getElem?_insert] at h
    split_ifs at h with hj
    · cases h
      exact .inr ⟨LawfulEqCmp.compare_eq_iff_eq.mp hj, rfl⟩
    · exact .inl h

theorem Filled.add (h : Filled make idGet entries maps) {kv : String × Info}
    (hk : kv.1 ∉ entries.map Prod.fst) :
    Filled make idGet (entries ++ [kv]) (ObjectMaps.add make idGet maps kv) := by
  have hnew : kv.1 ∉ maps.byName := by
    intro hmem
    obtain ⟨t, ht⟩ := Option.isSome_iff_exists.mp (ExtTreeMap.mem_iff_isSome_getElem?.mp hmem)
    exact hk (key_mem_of_mem_created ((h.names _ t).mp ht))
  rw [ObjectMaps.add, if_neg hnew]
  cases hmake : make kv.2 with
  | none =>
    have hsame : created make (entries ++ [kv]) = created make entries := by
      simp [created_concat, hmake]
    exact ⟨fun k t => by rw [hsame]; exact h.names k t,
      fun i t ht => by rw [hsame]; exact h.ids i t ht,
      fun k t hkt => h.every_id k t (hsame ▸ hkt)⟩
  | some object =>
    have hconcat : created make (entries ++ [kv]) = created make entries ++ [(kv.1, object)] := by
      simp [created_concat, hmake]
    have hfree : ∀ t, (kv.1, t) ∉ created make entries :=
      fun t ht => hk (key_mem_of_mem_created ht)
    refine ⟨fun k t => ?_, fun i t ht => ?_, fun k t hkt => ?_⟩
    · rw [hconcat, List.mem_append, ExtTreeMap.getElem?_insert, List.mem_singleton,
        Prod.mk.injEq, ← h.names]
      simp only [LawfulEqCmp.compare_eq_iff_eq]
      split_ifs with hkey
      · subst hkey
        have hnone : maps.byName[kv.1]? ≠ some t := fun ht => hfree t ((h.names _ t).mp ht)
        simp [hnone, eq_comm]
      · simp [Ne.symm hkey]
    · rw [hconcat]
      rcases of_getElem?_insert_if_free ht with ht | ⟨hi, rfl⟩
      · obtain ⟨hid, k, hk⟩ := h.ids i t ht
        exact ⟨hid, k, List.mem_append_left _ hk⟩
      · exact ⟨hi, kv.1, by simp⟩
    · rw [hconcat, List.mem_append, List.mem_singleton] at hkt
      apply mem_insert_if_free.mpr
      rcases hkt with hold | hnew
      · exact .inr (h.every_id k t hold)
      · cases hnew
        exact .inl rfl

/-- The constructor's loop over entries with distinct names. -/
theorem filled_foldl (h : (entries.map Prod.fst).Nodup) :
    Filled make idGet entries (entries.foldl (ObjectMaps.add make idGet) ⟨∅, ∅⟩) := by
  induction entries using List.reverseRecOn with
  | nil => exact ⟨by simp [created], by simp, by simp [created]⟩
  | append_singleton entries kv ih =>
    rw [List.map_append, List.map_singleton, List.nodup_append] at h
    rw [List.foldl_concat]
    refine (ih h.1).add fun hmem => ?_
    exact h.2.2 _ hmem _ (List.mem_singleton_self _) rfl

end Filling

/-- Every listed object is the one found under its id, and what is found under an id is
a listed object with that id. -/
structure ViewsAgree {T : Type} (idGet : T → TdiId) (listed : List T)
    (fromIdGet : TdiId → Except TdiStatus T) : Prop where
  listed_by_id : ∀ t ∈ listed, fromIdGet (idGet t) = .ok t
  by_id_listed : ∀ id t, fromIdGet id = .ok t → t ∈ listed ∧ idGet t = id

section Agreement

variable {Info T : Type} {make : Info → Option T} {idGet : T → TdiId}
  {entries : List (String × Info)} {maps : ObjectMaps T} {fromIdGet : TdiId → Except TdiStatus T}

/-- Objects that were created for different names are different objects, so the views
agree exactly when an id determines the name. -/
theorem Filled.viewsAgree_iff (h : Filled make idGet entries maps)
    (hobjects : ∀ k k' t, (k, t) ∈ created make entries → (k', t) ∈ created make entries → k = k')
    (hfrom : ∀ i t, fromIdGet i = .ok t ↔ maps.byId[i]? = some t) :
    ViewsAgree idGet (maps.byName.toList.map Prod.snd) fromIdGet ↔
      ∀ k k' t t', (k, t) ∈ created make entries → (k', t') ∈ created make entries →
        idGet t = idGet t' → k = k' := by
  have hlisted : ∀ t, t ∈ maps.byName.toList.map Prod.snd ↔
      ∃ k, (k, t) ∈ created make entries := by
    intro t
    simp [← h.names]
  constructor
  · intro hagree k k' t t' ht ht' hid
    have hfound := (hfrom _ _).mp (hagree.listed_by_id t ((hlisted t).mpr ⟨k, ht⟩))
    have hfound' := (hfrom _ _).mp (hagree.listed_by_id t' ((hlisted t').mpr ⟨k', ht'⟩))
    rw [hid, hfound'] at hfound
    cases hfound
    exact hobjects k k' t ht ht'
  · intro hids
    constructor
    · intro t ht
      obtain ⟨k, hk⟩ := (hlisted t).mp ht
      obtain ⟨t', ht'⟩ := Option.isSome_iff_exists.mp
        (ExtTreeMap.mem_iff_isSome_getElem?.mp (h.every_id k t hk))
      obtain ⟨hid, k', hk'⟩ := h.ids _ t' ht'
      obtain rfl := hids k k' t t' hk hk' hid.symm
      have hsame : t' = t :=
        Option.some.inj (((h.names k t').mpr hk').symm.trans ((h.names k t).mpr hk))
      rw [hfrom, ht', hsame]
    · intro i t ht
      obtain ⟨hid, k, hk⟩ := h.ids i t ((hfrom i t).mp ht)
      exact ⟨(hlisted t).mpr ⟨k, hk⟩, hid⟩

end Agreement

section Constructor

variable {Table : Type}

/-- The objects that `makeTable` hands out for different infos are different objects. -/
def TableFactory.MakesNew (factory : TableFactory Table) : Prop :=
  ∀ info info' table, factory.makeTable info = some table →
    factory.makeTable info' = some table → info = info'

/-- No two tables that the factory makes for a parser's infos have the same id. -/
def DistinctTableIds (parser : ParserResult) (factory : TableFactory Table) : Prop :=
  ∀ (k k' : String) (info info' : TableInfo) (table table' : Table),
    parser.tableInfoMap[k]? = some info →
    parser.tableInfoMap[k']? = some info' → factory.makeTable info = some table →
    factory.makeTable info' = some table' →
    (factory.tableInfoGet table).id = (factory.tableInfoGet table').id → k = k'

def DistinctLearnIds (parser : ParserResult) : Prop :=
  ∀ (k k' : String) (info info' : LearnInfo), parser.learnInfoMap[k]? = some info →
    parser.learnInfoMap[k']? = some info' → info.id = info'.id → k = k'

theorem keys_toList_nodup {V : Type} (m : ExtTreeMap String V) :
    (m.toList.map Prod.fst).Nodup := by
  rw [List.Nodup, List.pairwise_map]
  exact m.distinct_keys_toList.imp fun hne he => hne (LawfulEqCmp.compare_eq_iff_eq.mpr he)

theorem tableFromIdGet_eq_ok_iff (info : TdiInfo Table) (id : TdiId) (table : Table) :
    info.tableFromIdGet id = .ok table ↔ info.tableIdMap[id]? = some table := by
  unfold TdiInfo.tableFromIdGet
  cases info.tableIdMap[id]? <;> simp

theorem learnFromIdGet_eq_ok_iff (info : TdiInfo Table) (id : TdiId) (learn : Learn) :
    info.learnFromIdGet id = .ok learn ↔ info.learnIdMap[id]? = some learn := by
  unfold TdiInfo.learnFromIdGet
  cases info.learnIdMap[id]? <;> simp

variable (p4Name : String) (parser : ParserResult) (factory : TableFactory Table)

theorem tables_viewsAgree_iff (hnew : factory.MakesNew) :
    ViewsAgree (fun table => (factory.tableInfoGet table).id)
        ((TdiInfo.makeTdiInfo p4Name parser.toTdiInfoParser factory).tableMap.toList.map Prod.snd)
        (TdiInfo.makeTdiInfo p4Name parser.toTdiInfoParser factory).tableFromIdGet ↔
      DistinctTableIds parser factory := by
  have hkeys := keys_toList_nodup parser.tableInfoMap
  have hfilled : Filled factory.makeTable (fun table => (factory.tableInfoGet table).id)
    parser.tableInfoMap.toList _ := filled_foldl hkeys
  have hobjects : ∀ k k' table,
      (k, table) ∈ created factory.makeTable parser.tableInfoMap.toList →
      (k', table) ∈ created factory.makeTable parser.tableInfoMap.toList → k = k' := by
    intro k k' table h h'
    obtain ⟨info, hinfo, hmake⟩ := mem_created.mp h
    obtain ⟨info', hinfo', hmake'⟩ := mem_created.mp h'
    rw [ExtTreeMap.mem_toList_iff_getElem?_eq_some] at hinfo hinfo'
    rw [← parser.tables_named k info hinfo, ← parser.tables_named k' info' hinfo',
      hnew info info' table hmake hmake']
  refine (hfilled.viewsAgree_iff hobjects (tableFromIdGet_eq_ok_iff _)).trans ?_
  simp only [mem_created, ExtTreeMap.mem_toList_iff_getElem?_eq_some, DistinctTableIds]
  constructor
  · intro h k k' info info' table table' hi hi' hm hm'
    exact h k k' table table' ⟨info, hi, hm⟩ ⟨info', hi', hm'⟩
  · rintro h k k' table table' ⟨info, hi, hm⟩ ⟨info', hi', hm'⟩
    exact h k k' info info' table table' hi hi' hm hm'

theorem learns_viewsAgree_iff :
    ViewsAgree (fun learn : Learn => learn.learnInfo.id)
        ((TdiInfo.makeTdiInfo p4Name parser.toTdiInfoParser factory).learnMap.toList.map Prod.snd)
        (TdiInfo.makeTdiInfo p4Name parser.toTdiInfoParser factory).learnFromIdGet ↔
      DistinctLearnIds parser := by
  have hkeys := keys_toList_nodup parser.learnInfoMap
  have hfilled : Filled (fun info => some ⟨info⟩) (fun learn : Learn => learn.learnInfo.id)
    parser.learnInfoMap.toList _ := filled_foldl hkeys
  have hmem : ∀ k (learn : Learn),
      (k, learn) ∈ created (fun info => some ⟨info⟩) parser.learnInfoMap.toList ↔
        parser.learnInfoMap[k]? = some learn.learnInfo := by
    intro k learn
    simp only [mem_created, ExtTreeMap.mem_toList_iff_getElem?_eq_some, Option.some.injEq]
    constructor
    · rintro ⟨info, hinfo, rfl⟩
      exact hinfo
    · exact fun h => ⟨learn.learnInfo, h, rfl⟩
  have hobjects : ∀ k k' (learn : Learn),
      (k, learn) ∈ created (fun info => some ⟨info⟩) parser.learnInfoMap.toList →
      (k', learn) ∈ created (fun info => some ⟨info⟩) parser.learnInfoMap.toList → k = k' := by
    intro k k' learn h h'
    rw [← parser.learns_named k _ ((hmem k learn).mp h),
      ← parser.learns_named k' _ ((hmem k' learn).mp h')]
  refine (hfilled.viewsAgree_iff hobjects (learnFromIdGet_eq_ok_iff _)).trans ?_
  simp only [hmem, DistinctLearnIds]
  exact ⟨fun h k k' info info' hi hi' => h k k' ⟨info⟩ ⟨info'⟩ hi hi',
    fun h k k' learn learn' hl hl' => h k k' _ _ hl hl'⟩

/-- The views by name and by id describe the same tables and the same learns exactly when
no two tables and no two learns share an id. -/
theorem views_agree_iff (hnew : factory.MakesNew) :
    ∃ tables learns,
      (TdiInfo.makeTdiInfo p4Name parser.toTdiInfoParser factory).tablesGet (some []) =
        .ok tables ∧
      (TdiInfo.makeTdiInfo p4Name parser.toTdiInfoParser factory).learnsGet (some []) =
        .ok learns ∧
      (ViewsAgree (fun table => (factory.tableInfoGet table).id) tables
          (TdiInfo.makeTdiInfo p4Name parser.toTdiInfoParser factory).tableFromIdGet ∧
        ViewsAgree (fun learn => learn.learnInfo.id) learns
          (TdiInfo.makeTdiInfo p4Name parser.toTdiInfoParser factory).learnFromIdGet ↔
        DistinctTableIds parser factory ∧ DistinctLearnIds parser) :=
  ⟨_, _, rfl, rfl, and_congr (tables_viewsAgree_iff p4Name parser factory hnew)
    (learns_viewsAgree_iff p4Name parser factory)⟩

end Constructor

section Examples

theorem mem_of_tableInfoMap_schemaOf {names : List (String × TdiId)} {name : String}
    {info : TableInfo} (h : (schemaOf names).tableInfoMap[name]? = some info) :
    info.name = name ∧ (name, info.id) ∈ names := by
  simp only [schemaOf, ExtTreeMap.ofList_eq_insertMany_empty, getElem?_insertMany] at h
  obtain ⟨n, hmem, hn⟩ := List.mem_map.mp (mem_of_lastValue (by simpa using h))
  cases hn
  exact ⟨rfl, hmem⟩

theorem mem_of_learnInfoMap_schemaOf {names : List (String × TdiId)} {name : String}
    {info : LearnInfo} (h : (schemaOf names).learnInfoMap[name]? = some info) :
    info.name = name ∧ (name, info.id) ∈ names := by
  simp only [schemaOf, ExtTreeMap.ofList_eq_insertMany_empty, getElem?_insertMany] at h
  obtain ⟨n, hmem, hn⟩ := List.mem_map.mp (mem_of_lastValue (by simpa using h))
  cases hn
  exact ⟨rfl, hmem⟩

def resultOf (names : List (String × TdiId)) : ParserResult where
  toTdiInfoParser := schemaOf names
  tables_named _ _ h := (mem_of_tableInfoMap_schemaOf h).1
  learns_named _ _ h := (mem_of_learnInfoMap_schemaOf h).1

/-- A table object that is its own metadata. -/
def plainFactory : TableFactory TableInfo := ⟨some, id⟩

theorem plainFactory_makesNew : plainFactory.MakesNew := by
  intro info info' table h h'
  exact (Option.some.inj h).trans (Option.some.inj h').symm

def separateIds : TdiInfo TableInfo :=
  TdiInfo.makeTdiInfo "program" (schemaOf [("forward", 1), ("count", 2)]) plainFactory

def sharedIds : TdiInfo TableInfo :=
  TdiInfo.makeTdiInfo "program" (schemaOf [("a", 1), ("b", 1)]) plainFactory

theorem views_agree_iff_separateIds :
    ∃ tables, separateIds.tablesGet (some []) = .ok tables ∧
      ViewsAgree (fun table => table.id) tables separateIds.tableFromIdGet := by
  have hids : ∀ {k k' : String} {i i' : TdiId}, (k, i) ∈ [("forward", (1 : TdiId)), ("count", 2)] →
      (k', i') ∈ [("forward", (1 : TdiId)), ("count", 2)] → i = i' → k = k' := by
    intro k k' i i' h h' hi
    simp only [List.mem_cons, Prod.mk.injEq, List.not_mem_nil, or_false] at h h'
    rcases h with ⟨rfl, rfl⟩ | ⟨rfl, rfl⟩ <;> rcases h' with ⟨rfl, rfl⟩ | ⟨rfl, rfl⟩ <;>
      first | rfl | exact absurd hi (by decide)
  obtain ⟨tables, learns, htables, -, hviews⟩ := views_agree_iff "program"
    (resultOf [("forward", 1), ("count", 2)]) plainFactory plainFactory_makesNew
  refine ⟨tables, htables, (hviews.mpr ⟨?_, ?_⟩).1⟩
  · intro k k' info info' table table' h h' hm hm' hid
    cases hm
    cases hm'
    exact hids (mem_of_tableInfoMap_schemaOf h).2 (mem_of_tableInfoMap_schemaOf h').2 hid
  · intro k k' info info' h h' hid
    exact hids (mem_of_learnInfoMap_schemaOf h).2 (mem_of_learnInfoMap_schemaOf h').2 hid

/-- Two tables with one id: the second is listed but not found by its id. So are two learns. -/
theorem views_disagree :
    ∃ tables learns, sharedIds.tablesGet (some []) = .ok tables ∧
      sharedIds.learnsGet (some []) = .ok learns ∧
      ¬ ViewsAgree (fun table => table.id) tables sharedIds.tableFromIdGet ∧
      ¬ ViewsAgree (fun learn => learn.learnInfo.id) learns sharedIds.learnFromIdGet := by
  have hone : ∀ {k : String} {i : TdiId}, (k, i) ∈ [("a", (1 : TdiId)), ("b", 1)] → i = 1 := by
    intro k i h
    simp only [List.mem_cons, Prod.mk.injEq, List.not_mem_nil, or_false] at h
    rcases h with ⟨-, rfl⟩ | ⟨-, rfl⟩ <;> rfl
  refine ⟨_, _, rfl, rfl, ?_, ?_⟩
  · intro hagree
    have hids := (tables_viewsAgree_iff "program" (resultOf [("a", 1), ("b", 1)]) plainFactory
      plainFactory_makesNew).mp hagree
    have ha : ((schemaOf [("a", 1), ("b", 1)]).tableInfoMap["a"]?).isSome = true := by decide
    have hb : ((schemaOf [("a", 1), ("b", 1)]).tableInfoMap["b"]?).isSome = true := by decide
    obtain ⟨a, ha⟩ := Option.isSome_iff_exists.mp ha
    obtain ⟨b, hb⟩ := Option.isSome_iff_exists.mp hb
    have hid : a.id = b.id := (hone (mem_of_tableInfoMap_schemaOf ha).2).trans
      (hone (mem_of_tableInfoMap_schemaOf hb).2).symm
    exact absurd (hids "a" "b" a b a b ha hb rfl rfl hid) (by decide)
  · intro hagree
    have hids := (learns_viewsAgree_iff "program" (resultOf [("a", 1), ("b", 1)])
      plainFactory).mp hagree
    have ha : ((schemaOf [("a", 1), ("b", 1)]).learnInfoMap["a"]?).isSome = true := by decide
    have hb : ((schemaOf [("a", 1), ("b", 1)]).learnInfoMap["b"]?).isSome = true := by decide
    obtain ⟨a, ha⟩ := Option.isSome_iff_exists.mp ha
    obtain ⟨b, hb⟩ := Option.isSome_iff_exists.mp hb
    have hid : a.id = b.id := (hone (mem_of_learnInfoMap_schemaOf ha).2).trans
      (hone (mem_of_learnInfoMap_schemaOf hb).2).symm
    exact absurd (hids "a" "b" a b ha hb hid) (by decide)

end Examples
end Tdi.Info
