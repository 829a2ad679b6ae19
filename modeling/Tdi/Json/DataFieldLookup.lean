import Tdi.Json.ParseTable
import Tdi.Json.Oneof

/-!
# Looking data fields up by id and by name

A lookup with an action id searches the action's fields before the common ones,
and the id list puts the two scopes together. The parser compares ids only inside
each scope, so the list and the lookups agree exactly when no field of the action
has the id of a common field.
-/
namespace Tdi.Json

open Std Foundation Cjson

namespace TableInfo

variable (info : TableInfo) (actionId : TdiId)

/-- The id list, the id lookup and the name lookup speak of the same fields. -/
structure Coherent : Prop where
  ascending : (info.dataFieldIdListGet actionId).Pairwise (· < ·)
  mem_iff : ∀ i, i ∈ info.dataFieldIdListGet actionId ↔
    (info.dataFieldGet i actionId).isSome = true
  name_id : ∀ s, info.dataFieldIdGet s actionId ≠ 0 →
    ∃ f, info.dataFieldGet (info.dataFieldIdGet s actionId) actionId = some f ∧ f.name = s

/-- The fields of the action a lookup searches first. -/
def scopeKeys : List TdiId :=
  ((info.lookupScope actionId).map fun action => action.dataFields.keys).getD []

variable {info actionId}

theorem dataFieldIdListGet_eq :
    info.dataFieldIdListGet actionId =
      sortIds (info.scopeKeys actionId ++ info.tableDataMap.keys) := by
  unfold dataFieldIdListGet scopeKeys lookupScope
  split_ifs
  · cases info.tableActionMap.get? actionId <;> rfl
  · rfl

theorem mem_scopeKeys {i : TdiId} :
    i ∈ info.scopeKeys actionId ↔
      ((info.lookupScope actionId).bind fun action => action.dataFields.get? i).isSome = true := by
  unfold scopeKeys
  cases info.lookupScope actionId with
  | none => simp
  | some action => simp [KeyedMap.mem_keys]

theorem scopeKeys_nodup : (info.scopeKeys actionId).Nodup := by
  unfold scopeKeys
  cases info.lookupScope actionId with
  | none => exact List.nodup_nil
  | some action => exact action.dataFields.keys_nodup

/-- Both scopes are searched, so the list holds exactly the ids that can be found. -/
theorem mem_dataFieldIdListGet {i : TdiId} :
    i ∈ info.dataFieldIdListGet actionId ↔ (info.dataFieldGet i actionId).isSome = true := by
  rw [dataFieldIdListGet_eq, mem_sortIds, List.mem_append, mem_scopeKeys, KeyedMap.mem_keys]
  unfold dataFieldGet
  cases (info.lookupScope actionId).bind fun action => action.dataFields.get? i <;> simp

theorem ascending_iff_disjoint :
    (info.dataFieldIdListGet actionId).Pairwise (· < ·) ↔
      ∀ i ∈ info.scopeKeys actionId, i ∉ info.tableDataMap.keys := by
  rw [dataFieldIdListGet_eq, pairwise_lt_sortIds_iff, List.nodup_append']
  simp only [scopeKeys_nodup, info.tableDataMap.keys_nodup, true_and]
  rfl

/-- A field found by name is found by its id, unless the id is hidden by the action. -/
theorem dataFieldGet_of_dataFieldGetByName
    (hdisjoint : ∀ i ∈ info.scopeKeys actionId, i ∉ info.tableDataMap.keys)
    {s : String} {f : DataFieldInfo} (h : info.dataFieldGetByName s actionId = some f) :
    info.dataFieldGet f.fieldId actionId = some f ∧ f.name = s := by
  unfold dataFieldGetByName at h
  cases hscope : (info.lookupScope actionId).bind fun action => action.dataFieldsNames[s]? with
  | some g =>
    obtain ⟨action, haction, hg⟩ := Option.bind_eq_some_iff.mp hscope
    rw [hscope] at h
    obtain rfl : g = f := by simpa using h
    obtain ⟨hname, hid⟩ := action.of_dataFieldsNames hg
    exact ⟨by simp [dataFieldGet, haction, hid], hname⟩
  | none =>
    rw [hscope] at h
    obtain ⟨hname, hid⟩ := info.of_nameDataMap h
    have hcommon : f.fieldId ∈ info.tableDataMap.keys := KeyedMap.mem_keys.mpr (by simp [hid])
    have hfree : ((info.lookupScope actionId).bind fun action =>
        action.dataFields.get? f.fieldId) = none := by
      have hn := mem_scopeKeys.not.mp fun hs => hdisjoint _ hs hcommon
      simpa using hn
    exact ⟨by simp only [dataFieldGet, hfree, hid], hname⟩

theorem coherent_iff_disjoint :
    info.Coherent actionId ↔ ∀ i ∈ info.scopeKeys actionId, i ∉ info.tableDataMap.keys := by
  constructor
  · exact fun h => ascending_iff_disjoint.mp h.ascending
  · intro h
    refine ⟨ascending_iff_disjoint.mpr h, fun i => mem_dataFieldIdListGet, fun s hs => ?_⟩
    unfold dataFieldIdGet at hs ⊢
    cases hf : info.dataFieldGetByName s actionId with
    | none => simp [hf] at hs
    | some f => exact ⟨f, dataFieldGet_of_dataFieldGetByName h hf⟩

end TableInfo

section

variable {Node : Type} (lib : CjsonApi Node) (mapper : TdiInfoMapper) (t : Cjson Node)

/-- The ids of the fields an `action_specs` entry gives rise to. -/
def actionDataIds (actionJson : Cjson Node) : List TdiId :=
  (actionEntries lib actionJson).map fun entry => idOf lib (dataFieldNode lib entry 0)

/-- The ids of the fields the `data` list gives rise to. -/
def commonDataIds : List TdiId :=
  ((tableList lib t "data").flatMap (parseDataEntry lib)).map DataFieldInfo.fieldId

variable {lib mapper t}

@[simp] theorem actionId_parseAction (actionJson : Cjson Node) :
    (parseAction lib actionJson).actionId = idOf lib actionJson := rfl

theorem mem_keys_parseAction {actionJson : Cjson Node} {i : TdiId} :
    i ∈ (parseAction lib actionJson).dataFields.keys ↔ i ∈ actionDataIds lib actionJson := by
  rw [dataFields_parseAction, scopeFields, KeyedMap.mem_keys_addAll_empty, List.map_map]
  rfl

theorem mem_scopeKeys_of_parseTable {info : TableInfo} (h : parseTable lib mapper t = some info)
    {actionId i : TdiId} :
    i ∈ info.scopeKeys actionId ↔ actionId ≠ 0 ∧
      ∃ actionJson ∈ tableList lib t "action_specs", idOf lib actionJson = actionId ∧
        i ∈ actionDataIds lib actionJson := by
  have hm := parsedMaps_of_parseTable h
  unfold TableInfo.scopeKeys TableInfo.lookupScope
  split_ifs with h0
  · constructor
    · intro hi
      cases hf : info.tableActionMap.get? actionId with
      | none => simp [hf] at hi
      | some action =>
        have hid := KeyedMap.key_of_get? hf
        rw [hm.action] at hf
        obtain ⟨actionJson, hj, rfl⟩ := List.mem_map.mp (KeyedMap.mem_of_get?_addAll_empty hf)
        rw [hm.action, hf] at hi
        exact ⟨h0, actionJson, hj, hid, mem_keys_parseAction.mp hi⟩
    · rintro ⟨-, actionJson, hj, rfl, hi⟩
      have hnodup : (((tableList lib t "action_specs").map (parseAction lib)).map
          ActionInfo.actionId).Nodup := by
        rw [List.map_map]
        exact hm.actionIds_nodup
      rw [hm.action, ← actionId_parseAction,
        KeyedMap.get?_addAll_empty_of_nodup hnodup (List.mem_map_of_mem hj)]
      exact mem_keys_parseAction.mpr hi
  · simp [h0]

theorem mem_tableDataMap_of_parseTable {info : TableInfo}
    (h : parseTable lib mapper t = some info) {i : TdiId} :
    i ∈ info.tableDataMap.keys ↔ i ∈ commonDataIds lib t := by
  rw [(parsedMaps_of_parseTable h).data, KeyedMap.mem_keys_addAll_empty, commonDataIds,
    flatMap_parseDataEntry]

/-- The lookups with an action id are coherent exactly when the id is 0 or no field of
an action of that id has the id of a common field. -/
theorem dataFieldLookups_coherent_iff {info : TableInfo}
    (h : parseTable lib mapper t = some info) (actionId : TdiId) :
    info.Coherent actionId ↔ actionId = 0 ∨
      ∀ actionJson ∈ tableList lib t "action_specs", idOf lib actionJson = actionId →
        ∀ i ∈ actionDataIds lib actionJson, i ∉ commonDataIds lib t := by
  rw [TableInfo.coherent_iff_disjoint]
  simp only [mem_scopeKeys_of_parseTable h, mem_tableDataMap_of_parseTable h]
  constructor
  · intro hd
    by_cases h0 : actionId = 0
    · exact Or.inl h0
    · exact Or.inr fun actionJson hj hid i hi => hd i ⟨h0, actionJson, hj, hid, hi⟩
  · rintro hd i ⟨h0, actionJson, hj, hid, hi⟩
    exact hd.resolve_left h0 actionJson hj hid i hi

end

namespace Document

/-- A common field with the id 3 and an action 7 with one field. -/
def sendTable (portId : ℚ) : Document :=
  named 1 "forward"
    [("data", .array [named 3 "counter" []]),
     ("action_specs", .array [named 7 "send" [("data", .array [named portId "port" []])]])]

end Document

section

open Document

theorem dataFieldLookups_coherent_iff_sendTable :
    ∃ info, parseTable api ⟨∅, ∅, ∅, ∅⟩ (some (sendTable 4)) = some info ∧ info.Coherent 7 := by
  obtain ⟨info, h⟩ : ∃ info, parseTable api ⟨∅, ∅, ∅, ∅⟩ (some (sendTable 4)) = some info :=
    Option.isSome_iff_exists.mp (by decide)
  have haction : tableList api (some (sendTable 4)) "action_specs" =
      [some (named 7 "send" [("data", .array [named 4 "port" []])])] := rfl
  have hids : actionDataIds api (some (named 7 "send" [("data", .array [named 4 "port" []])])) =
      [4] := by decide
  have hcommon : commonDataIds api (some (sendTable 4)) = [3] := by decide
  refine ⟨info, h, (dataFieldLookups_coherent_iff h 7).mpr (Or.inr ?_)⟩
  simp [haction, hids, hcommon]

/-- An action field with the id of a common one is listed twice, and the common field's
name leads to the id of the other field. -/
theorem dataFieldLookups_incoherent :
    ∃ info, parseTable api ⟨∅, ∅, ∅, ∅⟩ (some (sendTable 3)) = some info ∧
      info.dataFieldIdListGet 7 = [3, 3] ∧ info.dataFieldIdGet "counter" 7 = 3 ∧
      (info.dataFieldGet 3 7).map DataFieldInfo.name = some "port" ∧ ¬ info.Coherent 7 := by
  have hrun : (parseTable api ⟨∅, ∅, ∅, ∅⟩ (some (sendTable 3))).map (fun info =>
      (info.dataFieldIdListGet 7, info.dataFieldIdGet "counter" 7,
        (info.dataFieldGet 3 7).map DataFieldInfo.name)) = some ([3, 3], 3, some "port") := by
    decide
  obtain ⟨info, h, hinfo⟩ := Option.map_eq_some_iff.mp hrun
  obtain ⟨hlist, hid, hname⟩ : info.dataFieldIdListGet 7 = [3, 3] ∧
      info.dataFieldIdGet "counter" 7 = 3 ∧
      (info.dataFieldGet 3 7).map DataFieldInfo.name = some "port" := by
    simpa using hinfo
  refine ⟨info, h, hlist, hid, hname, fun hc => ?_⟩
  have hsorted := hc.ascending
  rw [hlist] at hsorted
  exact absurd hsorted (by decide)

end

end Tdi.Json
