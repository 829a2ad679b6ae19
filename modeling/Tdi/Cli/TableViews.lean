import Tdi.Cli.TableInit

/-!
# Looking fields and actions up in the shell

The dictionaries of a table in the shell are filled in the order of the ids, and so are
the name maps of the metadata, so that a name that is there twice leads both to the last.
The metadata looks for a data field among those of an action before it looks among those
of the table. The shell has both in one dictionary, where the greater id wins.
-/
namespace Tdi.Cli.TableInit

open Std Foundation Json CFrontend
open Programs (cStr)

section Lookups

variable {info : TableInfo}

/-- The shell reads the names to their ends. -/
structure WholeNames (info : TableInfo) : Prop where
  keyFields : ∀ f ∈ info.tableKeyMap.values, cStr f.name = f.name
  actions : ∀ a ∈ info.tableActionMap.values, cStr a.name = a.name
  dataFields : ∀ actionId, ∀ f ∈ dataFieldsOf info actionId, cStr f.name = f.name

/-- A dictionary that is filled under the names of fields. -/
theorem get?_ofList_named {α β : Type} {l : List α} {name : α → String} {value : α → β}
    (h : ∀ a ∈ l, cStr (name a) = name a) (s : String) :
    (Dict.ofList (l.map fun a => (cStr (name a), value a))).get? s =
      (lastValue (l.map fun a => (name a, a)) s).map value := by
  have hnames : (l.map fun a => (cStr (name a), value a)) =
      (l.map fun a => (name a, a)).map fun p => (p.1, value p.2) := by
    rw [List.map_map]
    apply List.map_congr_left
    intro a ha
    rw [Function.comp_apply, h a ha]
  rw [hnames, Dict.get?_ofList, lastValue_map]

variable {actionId : TdiId}

/-- The fields of the action that a lookup searches first. -/
def scopeFields (info : TableInfo) (actionId : TdiId) : List DataFieldInfo :=
  ((info.lookupScope actionId).map fun action => action.dataFields.values).getD []

/-- The field that a name leads to among some fields. -/
def named (fields : List DataFieldInfo) (s : String) : Option DataFieldInfo :=
  lastValue (fields.map fun f => (f.name, f)) s

theorem dataFieldGetByName_eq (s : String) :
    info.dataFieldGetByName s actionId =
      (named (scopeFields info actionId) s).or (named info.tableDataMap.values s) := by
  have hscope : ((info.lookupScope actionId).bind fun action => action.dataFieldsNames[s]?) =
      named (scopeFields info actionId) s := by
    unfold scopeFields
    cases info.lookupScope actionId with
    | none => rfl
    | some action =>
      rw [Option.bind_some, action.dataFieldsNames_eq, KeyedMap.getElem?_index_eq_lastValue]
      rfl
  have hcommon : info.nameDataMap[s]? = named info.tableDataMap.values s := by
    rw [info.nameDataMap_eq, KeyedMap.getElem?_index_eq_lastValue]
    rfl
  unfold TableInfo.dataFieldGetByName
  rw [hscope, hcommon]
  cases named (scopeFields info actionId) s <;> rfl

theorem mem_dataFieldsOf_iff {f : DataFieldInfo} :
    f ∈ dataFieldsOf info actionId ↔ info.dataFieldGet f.fieldId actionId = some f := by
  constructor
  · exact dataFieldGet_of_mem
  · intro h
    have hid : f.fieldId ∈ info.dataFieldIdListGet actionId :=
      TableInfo.mem_dataFieldIdListGet.mpr (by rw [h]; rfl)
    exact List.mem_filterMap.mpr ⟨f.fieldId, hid, h⟩

theorem mem_scopeFields_iff {f : DataFieldInfo} :
    f ∈ scopeFields info actionId ↔
      ((info.lookupScope actionId).bind fun action => action.dataFields.get? f.fieldId) =
        some f := by
  unfold scopeFields
  cases info.lookupScope actionId with
  | none => simp
  | some action => exact KeyedMap.mem_values

/-- Where no id is in both scopes the list of the fields is made of both. -/
theorem mem_dataFieldsOf_iff_or (h : info.Coherent actionId) {f : DataFieldInfo} :
    f ∈ dataFieldsOf info actionId ↔
      f ∈ scopeFields info actionId ∨ f ∈ info.tableDataMap.values := by
  have hdisjoint := TableInfo.coherent_iff_disjoint.mp h f.fieldId
  rw [TableInfo.mem_scopeKeys, KeyedMap.mem_keys] at hdisjoint
  rw [mem_dataFieldsOf_iff, mem_scopeFields_iff, KeyedMap.mem_values, TableInfo.dataFieldGet]
  cases hscope : (info.lookupScope actionId).bind fun action => action.dataFields.get? f.fieldId
    with
  | none => simp
  | some g =>
    have hcommon : info.tableDataMap.get? f.fieldId = none := by
      simpa [hscope] using hdisjoint
    simp [hcommon]

theorem pairwise_dataFieldsOf (h : info.Coherent actionId) :
    (dataFieldsOf info actionId).Pairwise (·.fieldId < ·.fieldId) := by
  rw [← List.pairwise_map, map_fieldId_dataFieldsOf]
  exact h.ascending

theorem pairwise_values (m : KeyedMap DataFieldInfo.fieldId) :
    m.values.Pairwise (·.fieldId < ·.fieldId) := by
  rw [← List.pairwise_map, KeyedMap.map_key_values]
  exact pairwise_lt_keys m

variable (info actionId) in
theorem pairwise_scopeFields :
    (scopeFields info actionId).Pairwise (·.fieldId < ·.fieldId) := by
  unfold scopeFields
  cases info.lookupScope actionId with
  | none => exact List.Pairwise.nil
  | some action => exact pairwise_values action.dataFields

/-- Among fields in the order of the ids a name leads to the one with the greatest id. -/
theorem named_eq_some_iff {fields : List DataFieldInfo}
    (h : fields.Pairwise (·.fieldId < ·.fieldId)) {s : String} {f : DataFieldInfo} :
    named fields s = some f ↔
      f ∈ fields ∧ f.name = s ∧ ∀ g ∈ fields, g.name = s → g = f ∨ g.fieldId < f.fieldId := by
  have : Std.Asymm fun f g : DataFieldInfo => f.fieldId < g.fieldId :=
    ⟨fun _ _ => UInt32.lt_asymm⟩
  exact lastValue_eq_some_iff_of_pairwise h

theorem name_ne_of_named_eq_none {fields : List DataFieldInfo} {s : String}
    (h : named fields s = none) : ∀ f ∈ fields, f.name ≠ s := by
  intro f hf hname
  have hsome : (named fields s).isSome = true :=
    lastValue_isSome_iff.mpr (List.mem_map.mpr ⟨(f.name, f), List.mem_map_of_mem hf, hname⟩)
  rw [h] at hsome
  cases hsome

theorem fieldId_ne (h : info.Coherent actionId) {f g : DataFieldInfo}
    (hf : f ∈ scopeFields info actionId) (hg : g ∈ info.tableDataMap.values) :
    f.fieldId ≠ g.fieldId := by
  intro he
  have hscope : f.fieldId ∈ info.scopeKeys actionId := by
    rw [TableInfo.mem_scopeKeys, mem_scopeFields_iff.mp hf]
    rfl
  have hcommon : f.fieldId ∈ info.tableDataMap.keys := by
    rw [he, KeyedMap.mem_keys, KeyedMap.mem_values.mp hg]
    rfl
  exact TableInfo.coherent_iff_disjoint.mp h _ hscope hcommon

/-- Among the fields of both scopes a name leads to the one with the greater id. -/
theorem named_dataFieldsOf (h : info.Coherent actionId) (s : String) :
    named (dataFieldsOf info actionId) s =
      match named (scopeFields info actionId) s, named info.tableDataMap.values s with
      | some f, some g => if g.fieldId < f.fieldId then some f else some g
      | some f, none => some f
      | none, g => g := by
  have hall := fun f => named_eq_some_iff (s := s) (f := f) (pairwise_dataFieldsOf h)
  have hscope := fun f => named_eq_some_iff (s := s) (f := f)
    (pairwise_scopeFields info actionId)
  have hcommon := fun f => named_eq_some_iff (s := s) (f := f) (pairwise_values info.tableDataMap)
  simp only [mem_dataFieldsOf_iff_or h] at hall
  cases hf : named (scopeFields info actionId) s with
  | none =>
    have hnone := name_ne_of_named_eq_none hf
    ext f
    rw [hall, hcommon]
    grind
  | some f =>
    obtain ⟨hfmem, hfname, hfmax⟩ := (hscope f).mp hf
    cases hg : named info.tableDataMap.values s with
    | none =>
      have hnone := name_ne_of_named_eq_none hg
      exact (hall f).mpr (by grind)
    | some g =>
      obtain ⟨hgmem, hgname, hgmax⟩ := (hcommon g).mp hg
      have htrans : ∀ {i j k : TdiId}, i < j → j < k → i < k := UInt32.lt_trans
      dsimp only
      split_ifs with hlt
      · refine (hall f).mpr ⟨.inl hfmem, hfname, fun w hw hwname => ?_⟩
        rcases hw with hw | hw
        · exact hfmax w hw hwname
        · rcases hgmax w hw hwname with rfl | hwg
          · exact .inr hlt
          · exact .inr (htrans hwg hlt)
      · have hfg : f.fieldId < g.fieldId :=
          UInt32.lt_of_le_of_ne (UInt32.not_lt.mp hlt) (fieldId_ne h hfmem hgmem)
        refine (hall g).mpr ⟨.inr hgmem, hgname, fun w hw hwname => ?_⟩
        rcases hw with hw | hw
        · rcases hfmax w hw hwname with rfl | hwf
          · exact .inr hfg
          · exact .inr (htrans hwf hfg)
        · exact hgmax w hw hwname

theorem get?_dataFieldsView (h : WholeNames info) (actionName : Option String) (s : String) :
    (dataFieldsView info actionId actionName).get? s =
      (named (dataFieldsOf info actionId) s).map (dataView actionId actionName) :=
  get?_ofList_named (h.dataFields actionId) s

theorem dataFieldsView_agree_iff (hnames : WholeNames info) (h : info.Coherent actionId)
    (actionName : Option String) :
    (∀ s, (dataFieldsView info actionId actionName).get? s =
        (info.dataFieldGetByName s actionId).map (dataView actionId actionName)) ↔
      ∀ s f g, named (scopeFields info actionId) s = some f →
        named info.tableDataMap.values s = some g → g.fieldId < f.fieldId := by
  apply forall_congr'
  intro s
  rw [get?_dataFieldsView hnames, dataFieldGetByName_eq, named_dataFieldsOf h]
  cases hf : named (scopeFields info actionId) s with
  | none => simp
  | some f =>
    cases hg : named info.tableDataMap.values s with
    | none => simp
    | some g =>
      simp only [Option.or_some, Option.some.injEq]
      split_ifs with hlt
      · simp [hlt]
      · have hne : dataView actionId actionName g ≠ dataView actionId actionName f := by
          intro he
          have hid : g.fieldId = f.fieldId := congrArg TdiTableField.id he
          have hfmem := ((named_eq_some_iff (pairwise_scopeFields _ _)).mp hf).1
          have hgmem := ((named_eq_some_iff (pairwise_values _)).mp hg).1
          exact fieldId_ne h hfmem hgmem hid.symm
        simp [hlt, hne]

theorem scopeFields_zero : scopeFields info 0 = [] := rfl

theorem coherent_zero : info.Coherent 0 := TableInfo.coherent_iff_disjoint.mpr (by
  intro i hi
  cases hi)

theorem get?_actions (h : WholeNames info) (s : String) :
    (view info).actions.get? s = (info.actionGetByName s).map (actionView info s) := by
  rw [view, Dict.get?_mapVals, actionsOf, get?_ofList_named h.actions,
    TableInfo.actionGetByName, info.nameActionMap_eq, KeyedMap.getElem?_index_eq_lastValue,
    Option.map_id']

/-- Names lead the shell to the key fields and the actions that they lead the metadata to, ids to
the names of actions, and names to data fields if the table has no actions. -/
theorem view_lookups_agree (h : WholeNames info) :
    (∀ s, (view info).keyFields.get? s = (info.keyFieldGetByName s).map keyView) ∧
    (∀ s, (view info).actions.get? s = (info.actionGetByName s).map (actionView info s)) ∧
    (∀ i : TdiId, (view info).actionIdNameMap[i]? = (info.actionGet i).map ActionInfo.name) ∧
    (info.tableActionMap.values = [] → ∀ s, (view info).dataFields.get? s =
      (info.dataFieldGetByName s 0).map (dataView 0 none)) := by
  refine ⟨fun s => ?_, get?_actions h, fun i => ?_, fun hnil => ?_⟩
  · rw [view, get?_ofList_named h.keyFields, TableInfo.keyFieldGetByName, info.nameKeyMap_eq,
      KeyedMap.getElem?_index_eq_lastValue]
  · have hnames : (info.tableActionMap.values.map fun a => (a.actionId, cStr a.name)) =
        (info.tableActionMap.values.map fun a => (a.actionId, a)).map fun p =>
          (p.1, p.2.name) := by
      rw [List.map_map]
      apply List.map_congr_left
      intro a ha
      rw [Function.comp_apply, h.actions a ha]
    rw [view, KeyedMap.getElem?_foldl_insert_empty, hnames, lastValue_map,
      ← KeyedMap.get?_eq_lastValue]
    rfl
  · have hdata : (view info).dataFields = dataFieldsView info 0 none := if_pos hnil
    rw [hdata]
    apply (dataFieldsView_agree_iff h coherent_zero none).mpr
    intro s f g hf
    rw [scopeFields_zero] at hf
    cases hf

/-- A name leads the shell to the data field of an action that it leads the metadata to, unless a
common field has the name of a field of the action and a greater id. -/
theorem view_data_lookups_agree_iff (hnames : WholeNames info) {name : String} {d : ActionDict}
    (haction : (view info).actions.get? name = some d) (h : info.Coherent d.id) :
    (∀ s, d.dataFields.get? s =
        (info.dataFieldGetByName s d.id).map (dataView d.id (some name))) ↔
      ∀ s f g, named (scopeFields info d.id) s = some f →
        named info.tableDataMap.values s = some g → g.fieldId < f.fieldId := by
  rw [view, Dict.get?_mapVals] at haction
  obtain ⟨a, -, rfl⟩ := Option.map_eq_some_iff.mp haction
  exact dataFieldsView_agree_iff hnames h (some name)

end Lookups

section CounterTable

def counterField (fieldId : TdiId) : DataFieldInfo :=
  { fieldId := fieldId, name := "counter", sizeBits := 64, dataType := .uint64, mandatory := false,
    readOnly := false, enumChoices := [], annotations := KeyedMap.empty, defaultValue := 0,
    defaultFlValue := none, defaultStrValue := "", repeated := false, containerValid := false,
    oneofSiblings := ∅ }

/-- The action and the table both have a field `counter`. -/
def counterTable : TableInfo := TableInfo.make
  { id := 1, name := "pipe.ports", tableType := tableTypeCore, size := 0,
    hasConstDefaultAction := false, isConst := false, tableKeyMap := KeyedMap.empty,
    tableDataMap := KeyedMap.empty.add (counterField 3),
    tableActionMap := KeyedMap.empty.add
      (ActionInfo.make 7 "count" (KeyedMap.empty.add (counterField 2)) KeyedMap.empty),
    tableNotificationMap := KeyedMap.empty, dependsOnSet := ∅, operationsTypeSet := ∅,
    attributesTypeSet := ∅, annotations := KeyedMap.empty }

theorem dataFieldsOf_counterTable (actionId : TdiId) :
    dataFieldsOf counterTable actionId = [counterField 2, counterField 3] ∨
      dataFieldsOf counterTable actionId = [counterField 3] := by
  by_cases hid : actionId = 7
  · rw [hid]
    exact .inl rfl
  · have hscope : counterTable.tableActionMap.get? actionId = none := by
      have hne : (7 : TdiId) ≠ actionId := fun h => hid h.symm
      rw [counterTable, TableInfo.make, KeyedMap.get?_add, KeyedMap.get?_empty]
      exact if_neg hne
    have hcommon : dataFieldsOf counterTable actionId = dataFieldsOf counterTable 0 := by
      simp [dataFieldsOf, TableInfo.dataFieldIdListGet, TableInfo.dataFieldGet,
        TableInfo.lookupScope, hscope]
    rw [hcommon]
    exact .inr rfl

theorem eq_counterField {actionId : TdiId} {f : DataFieldInfo}
    (hf : f ∈ dataFieldsOf counterTable actionId) : f = counterField 2 ∨ f = counterField 3 := by
  rcases dataFieldsOf_counterTable actionId with h | h
  · simpa [h] using hf
  · exact .inr (by simpa [h] using hf)

theorem values_tableActionMap_counterTable : counterTable.tableActionMap.values =
    [ActionInfo.make 7 "count" (KeyedMap.empty.add (counterField 2)) KeyedMap.empty] := rfl

theorem counted_counterTable : Counted counterTable where
  keyFields := by decide
  keyChoices := nofun
  actions := by decide
  actionAnnotations := by
    rw [values_tableActionMap_counterTable]
    simp [ActionInfo.make]
    decide
  dataFields actionId := by
    rw [← map_fieldId_dataFieldsOf, List.length_map]
    rcases dataFieldsOf_counterTable actionId with h | h <;> rw [h] <;> decide
  dataChoices actionId f hf := by
    rcases eq_counterField hf with rfl | rfl <;> decide
  dataAnnotations actionId f hf := by
    rcases eq_counterField hf with rfl | rfl <;> decide

theorem plain_names_counterTable {actionId : TdiId} {f : DataFieldInfo}
    (hf : f ∈ dataFieldsOf counterTable actionId) : Programs.Plain f.name := by
  have hplain : Programs.Plain "counter" := ⟨by simp [IsAscii], by simp⟩
  rcases eq_counterField hf with rfl | rfl <;> exact hplain

theorem plain_action_counterTable {a : ActionInfo}
    (ha : a ∈ counterTable.tableActionMap.values) : Programs.Plain a.name := by
  rw [values_tableActionMap_counterTable, List.mem_singleton] at ha
  rw [ha]
  exact ⟨by simp [IsAscii, ActionInfo.make], by simp [ActionInfo.make]⟩

theorem wholeNames_counterTable : WholeNames counterTable where
  keyFields := nofun
  actions _ ha := Programs.cStr_of_plain (plain_action_counterTable ha)
  dataFields _ _ hf := Programs.cStr_of_plain (plain_names_counterTable hf)

theorem readable_counterTable : Readable counterTable where
  keyFields := nofun
  actionAnnotations a ha := by
    rw [values_tableActionMap_counterTable, List.mem_singleton] at ha
    rw [ha]
    exact nofun
  actionNames a ha := by
    have hplain := plain_action_counterTable ha
    rw [Programs.cStr_of_plain hplain]
    exact hplain.ascii
  dataFields f hf := by
    have hshown : shownDataFields counterTable = dataFieldsOf counterTable 7 := rfl
    rw [hshown] at hf
    have hplain := plain_names_counterTable hf
    refine ⟨?_, ?_, ?_, ?_⟩
    · rw [Programs.cStr_of_plain hplain]
      exact hplain.ascii
    all_goals rcases eq_counterField hf with rfl | rfl <;> exact nofun

theorem coherent_counterTable : counterTable.Coherent 7 := by
  have hown : counterTable.scopeKeys 7 = [2] := rfl
  have hcommon : counterTable.tableDataMap.keys = [3] := rfl
  rw [TableInfo.coherent_iff_disjoint, hown, hcommon]
  intro i hi
  rw [List.mem_singleton.mp hi, List.mem_singleton]
  decide

theorem initTable_counterTable : initTable counterTable = .ok (view counterTable) :=
  (initTable_guarded counted_counterTable).returns readable_counterTable

theorem view_lookups_counterTable :
    ((view counterTable).actions.get? "count").isSome = true := by
  rw [(view_lookups_agree wholeNames_counterTable).2.1]
  rfl

/-- The shell takes the counter of the table for that of the action. -/
theorem view_data_lookups_counterTable :
    ¬ ∀ s, (dataFieldsView counterTable 7 (some "count")).get? s =
      (counterTable.dataFieldGetByName s 7).map (dataView 7 (some "count")) := by
  have haction : (view counterTable).actions.get? "count" =
      some (actionView counterTable "count"
        (ActionInfo.make 7 "count" (KeyedMap.empty.add (counterField 2)) KeyedMap.empty)) := by
    rw [get?_actions wholeNames_counterTable]
    rfl
  intro h
  have hless := (view_data_lookups_agree_iff wholeNames_counterTable haction
    coherent_counterTable).mp h "counter" (counterField 2) (counterField 3) rfl rfl
  exact absurd hless (by decide)

end CounterTable

end Tdi.Cli.TableInit
