import Tdi.Json.InfoParser
import Tdi.Json.Document

/-!
# A parsed table represents its JSON

Ids are read off the JSON by plain list traversals; the theorem says that the
maps of the parsed table hold exactly those ids, each with the field of its
first occurrence, that keys and names agree with the values under them, and
that a `oneof` group in the common data is closed under siblings.
-/
namespace Tdi.Json

open Std Foundation Cjson

section

variable {Node : Type} (lib : CjsonApi Node) (mapper : TdiInfoMapper) (t : Cjson Node)

def tableList (list : String) : List (Cjson Node) := getCjsonChildVec lib (item lib t list)

def keyIds : List TdiId := (tableList lib t "key").map (idOf lib)

def actionIds : List TdiId := (tableList lib t "action_specs").map (idOf lib)

def notificationIds : List TdiId := (tableList lib t "notifications").map (idOf lib)

/-- The JSON nodes an entry of a `data` list describes fields with. -/
def fieldNodes (entry : Cjson Node) : List (Cjson Node) :=
  if exists? (item lib entry "oneof") then oneofMembers lib entry else [unwrapSingleton lib entry]

/-- The ids of the common data, in document order. -/
def dataIds : List TdiId :=
  (tableList lib t "data").flatMap fun entry => (fieldNodes lib entry).map (idOf lib)

/-- A place in the document that describes a common data field: the entry, and
which of the entry's nodes it is. -/
structure Occurrence (Node : Type) where
  entry : Cjson Node
  index : ℕ
  node : Cjson Node

namespace Occurrence

variable (o : Occurrence Node)

def id : TdiId := idOf lib o.node

def field : DataFieldInfo := parseDataField lib o.entry o.index

/-- The ids of the `oneof` group the occurrence belongs to, if any. -/
def groupIds : List TdiId :=
  if exists? (item lib o.entry "oneof") then (oneofMembers lib o.entry).map (idOf lib) else []

end Occurrence

def occurrencesOf (entry : Cjson Node) : List (Occurrence Node) :=
  (fieldNodes lib entry).zipIdx.map fun n => ⟨entry, n.2, n.1⟩

def occurrences : List (Occurrence Node) := (tableList lib t "data").flatMap (occurrencesOf lib)

/-- An entry is plain, wrapped in `singleton`, or a `oneof` directly under it. -/
def EntryShape (entry : Cjson Node) : Prop :=
  (exists? (item lib entry "singleton") = false ∧ exists? (item lib entry "oneof") = false) ∨
  (exists? (item lib entry "singleton") = true ∧ exists? (item lib entry "oneof") = false ∧
    exists? (item lib (item lib entry "singleton") "oneof") = false) ∨
  (exists? (item lib entry "singleton") = false ∧ exists? (item lib entry "oneof") = true)

instance (entry : Cjson Node) : Decidable (EntryShape lib entry) :=
  inferInstanceAs (Decidable (_ ∨ _ ∨ _))

variable {lib mapper t}

theorem EntryShape.unwrap_oneof {entry : Cjson Node} (h : EntryShape lib entry) :
    exists? (item lib (unwrapSingleton lib entry) "oneof") = exists? (item lib entry "oneof") := by
  rcases h with ⟨hs, ho⟩ | ⟨hs, ho, hso⟩ | ⟨hs, ho⟩
  · simp [unwrapSingleton, hs]
  · simp [unwrapSingleton, hs, ho, hso]
  · simp [unwrapSingleton, hs]

theorem EntryShape.unwrap_of_oneof {entry : Cjson Node} (h : EntryShape lib entry)
    (ho : exists? (item lib entry "oneof") = true) : unwrapSingleton lib entry = entry := by
  rcases h with ⟨_, ho'⟩ | ⟨_, ho', _⟩ | ⟨hs, _⟩
  · simp [ho] at ho'
  · simp [ho] at ho'
  · simp [unwrapSingleton, hs]

/-- Under one of the three shapes the parser reads each node of the entry in turn. -/
theorem EntryShape.dataFieldNode_eq {entry : Cjson Node} (h : EntryShape lib entry)
    {o : Occurrence Node} (ho : o ∈ occurrencesOf lib entry) :
    o.entry = entry ∧ dataFieldNode lib entry o.index = o.node := by
  simp only [occurrencesOf, List.mem_map, Prod.exists] at ho
  obtain ⟨node, j, hn, rfl⟩ := ho
  rw [List.mem_zipIdx_iff_getElem?] at hn
  refine ⟨rfl, ?_⟩
  by_cases hone : exists? (item lib entry "oneof") = true
  · have hu := h.unwrap_of_oneof hone
    have hj : j < arraySize lib (item lib entry "oneof") := by
      obtain ⟨hj, -⟩ := List.getElem?_eq_some_iff.mp hn
      rwa [fieldNodes, if_pos hone, oneofMembers, length_getCjsonChildVec _ _ hone] at hj
    rw [fieldNodes, if_pos hone, oneofMembers, getElem?_getCjsonChildVec _ _ hone hj] at hn
    simpa [dataFieldNode, hu, hone] using hn
  · have hu := h.unwrap_oneof
    rw [fieldNodes, if_neg hone] at hn
    obtain ⟨rfl, rfl⟩ : j = 0 ∧ unwrapSingleton lib entry = node := by
      cases j with
      | zero => exact ⟨rfl, by simpa using hn⟩
      | succ j => simp at hn
    simp [dataFieldNode, hu, hone]

theorem fieldId_field (hshape : ∀ entry ∈ tableList lib t "data", EntryShape lib entry)
    {o : Occurrence Node} (ho : o ∈ occurrences lib t) : (o.field lib).fieldId = o.id lib := by
  obtain ⟨entry, he, ho⟩ := List.mem_flatMap.mp ho
  obtain ⟨rfl, hnode⟩ := (hshape entry he).dataFieldNode_eq ho
  rw [Occurrence.id, ← hnode]
  rfl

/-- The parser's loop over an entry runs once for each of its nodes. -/
theorem parseDataEntry_eq (entry : Cjson Node) :
    parseDataEntry lib entry = (occurrencesOf lib entry).map (Occurrence.field lib) := by
  have hlen : (if exists? (item lib entry "oneof") then arraySize lib (item lib entry "oneof")
      else 1) = (fieldNodes lib entry).length := by
    unfold fieldNodes
    split_ifs with ho
    · rw [oneofMembers, length_getCjsonChildVec _ _ ho]
    · rfl
  have hidx : List.range (fieldNodes lib entry).length =
      (fieldNodes lib entry).zipIdx.map Prod.snd := by
    rw [List.zipIdx_map_snd, List.range_eq_range']
  simp only [parseDataEntry, hlen]
  rw [hidx, occurrencesOf, List.map_map, List.map_map]
  rfl

theorem flatMap_parseDataEntry :
    (tableList lib t "data").flatMap (parseDataEntry lib) =
      (occurrences lib t).map (Occurrence.field lib) := by
  rw [occurrences, List.map_flatMap]
  exact List.flatMap_congr fun entry _ => parseDataEntry_eq entry

theorem map_id_occurrences : (occurrences lib t).map (Occurrence.id lib) = dataIds lib t := by
  rw [occurrences, dataIds, List.map_flatMap]
  refine List.flatMap_congr fun entry _ => ?_
  have hnode : Occurrence.id lib ∘ (fun n : Cjson Node × ℕ => ⟨entry, n.2, n.1⟩) =
      idOf lib ∘ Prod.fst := rfl
  rw [occurrencesOf, List.map_map, hnode, ← List.map_map, List.zipIdx_map_fst]

/-- What the maps of a successfully parsed table are. -/
structure ParsedMaps (lib : CjsonApi Node) (mapper : TdiInfoMapper) (t : Cjson Node)
    (info : TableInfo) : Prop where
  key : info.tableKeyMap =
    KeyedMap.empty.addAll ((tableList lib t "key").map (parseKeyField lib mapper))
  data : info.tableDataMap =
    KeyedMap.empty.addAll ((occurrences lib t).map (Occurrence.field lib))
  action : info.tableActionMap =
    KeyedMap.empty.addAll ((tableList lib t "action_specs").map (parseAction lib))
  notification : info.tableNotificationMap =
    KeyedMap.empty.addAll ((tableList lib t "notifications").map (parseNotificationInfo lib))
  keyIds_nodup : (keyIds lib t).Nodup
  actionIds_nodup : (actionIds lib t).Nodup
  notificationIds_nodup : (notificationIds lib t).Nodup

theorem parsedMaps_of_parseTable {info : TableInfo} (h : parseTable lib mapper t = some info) :
    ParsedMaps lib mapper t info := by
  simp only [parseTable, bind, pure, Option.bind_eq_some_iff, Option.some.injEq] at h
  obtain ⟨keys, hk, actions, ha, notifications, hn, rfl⟩ := h
  have nodup {α : Type} {key : α → TdiId} {l : List α} {m : KeyedMap key}
      (h : KeyedMap.empty.addAllUnique? l = some m) : (l.map key).Nodup := by
    by_contra hd
    rw [(KeyedMap.addAllUnique?_empty_eq_none_iff key l).mpr hd] at h
    cases h
  refine ⟨KeyedMap.eq_addAll_of_addAllUnique? hk, ?_, KeyedMap.eq_addAll_of_addAllUnique? ha,
    KeyedMap.eq_addAll_of_addAllUnique? hn, ?_, ?_, ?_⟩
  · rw [← flatMap_parseDataEntry]
    rfl
  · have hd := nodup hk
    rwa [List.map_map] at hd
  · have hd := nodup ha
    rwa [List.map_map] at hd
  · have hd := nodup hn
    rwa [List.map_map] at hd

/-- The parser gives up on a table exactly on a repeated key, action or notification id. -/
theorem parseTable_eq_none_iff :
    parseTable lib mapper t = none ↔
      ¬ (keyIds lib t).Nodup ∨ ¬ (actionIds lib t).Nodup ∨ ¬ (notificationIds lib t).Nodup := by
  have hk := KeyedMap.addAllUnique?_empty_eq_none_iff KeyFieldInfo.fieldId
    ((tableList lib t "key").map (parseKeyField lib mapper))
  have ha := KeyedMap.addAllUnique?_empty_eq_none_iff ActionInfo.actionId
    ((tableList lib t "action_specs").map (parseAction lib))
  have hn := KeyedMap.addAllUnique?_empty_eq_none_iff NotificationInfo.notificationId
    ((tableList lib t "notifications").map (parseNotificationInfo lib))
  rw [List.map_map] at hk ha hn
  constructor
  · intro h
    by_contra hd
    push Not at hd
    obtain ⟨keys, hkeys⟩ := Option.ne_none_iff_exists'.mp (mt hk.mp (not_not.mpr hd.1))
    obtain ⟨actions, hactions⟩ := Option.ne_none_iff_exists'.mp (mt ha.mp (not_not.mpr hd.2.1))
    obtain ⟨notifications, hnotifications⟩ :=
      Option.ne_none_iff_exists'.mp (mt hn.mp (not_not.mpr hd.2.2))
    simp only [tableList] at hkeys hactions hnotifications
    simp [parseTable, hkeys, hactions, hnotifications] at h
  · intro h
    rw [Option.eq_none_iff_forall_ne_some]
    intro info hinfo
    have hm := parsedMaps_of_parseTable hinfo
    rcases h with h | h | h
    · exact h hm.keyIds_nodup
    · exact h hm.actionIds_nodup
    · exact h hm.notificationIds_nodup

/-- Keys are the ids of their values, and names lead to elements with that name. -/
structure IndexedBy {α : Type} {id : α → TdiId} (m : KeyedMap id) (name : α → String)
    (names : ExtTreeMap String α) : Prop where
  id_eq : ∀ i a, m.get? i = some a → id a = i
  name_eq : ∀ s a, names[s]? = some a → name a = s ∧ m.get? (id a) = some a

/-- What a parsed table owes its JSON. -/
structure Represents (lib : CjsonApi Node) (t : Cjson Node) (info : TableInfo) : Prop where
  keyFieldIdListGet : info.keyFieldIdListGet.Perm (keyIds lib t)
  actionIdListGet : info.actionIdListGet.Perm (actionIds lib t)
  notificationIds : info.tableNotificationMap.keys.Perm (notificationIds lib t)
  dataIds : ∀ i, i ∈ info.tableDataMap.keys ↔ i ∈ dataIds lib t
  firstOccurrence : ∀ i, info.tableDataMap.get? i =
    ((occurrences lib t).find? fun o => o.id lib = i).map (Occurrence.field lib)
  fieldNode : ∀ o ∈ occurrences lib t, dataFieldNode lib o.entry o.index = o.node
  keyIndexed : IndexedBy info.tableKeyMap KeyFieldInfo.name info.nameKeyMap
  dataIndexed : IndexedBy info.tableDataMap DataFieldInfo.name info.nameDataMap
  actionIndexed : IndexedBy info.tableActionMap ActionInfo.name info.nameActionMap
  notificationIndexed :
    IndexedBy info.tableNotificationMap NotificationInfo.name info.nameNotificationsMap
  siblings : ∀ o ∈ occurrences lib t,
    (o.field lib).oneofSiblings = (o.groupIds lib).toFinset.erase (o.id lib)
  siblings_closed : ∀ i f, info.tableDataMap.get? i = some f →
    ∀ s ∈ f.oneofSiblings, s ∈ info.tableDataMap.keys

/-- The skipping loop over parsed nodes, whose ids are the ids of the nodes. -/
theorem keys_perm_map_idOf {α : Type} (id : α → TdiId) (parse : Cjson Node → α)
    (hid : ∀ node, id (parse node) = idOf lib node) {nodes : List (Cjson Node)}
    (h : (nodes.map (idOf lib)).Nodup) :
    ((KeyedMap.empty.addAll (nodes.map parse) : KeyedMap id).keys).Perm
      (nodes.map (idOf lib)) := by
  have hids : (nodes.map parse).map id = nodes.map (idOf lib) := by
    rw [List.map_map]
    exact List.map_congr_left fun node _ => hid node
  exact (List.perm_ext_iff_of_nodup (KeyedMap.keys_nodup _) h).mpr fun i =>
    KeyedMap.mem_keys_addAll_empty.trans (by rw [hids])

theorem siblings_field (hshape : ∀ entry ∈ tableList lib t "data", EntryShape lib entry)
    {o : Occurrence Node} (ho : o ∈ occurrences lib t) :
    (o.field lib).oneofSiblings = (o.groupIds lib).toFinset.erase (o.id lib) := by
  obtain ⟨entry, he, ho⟩ := List.mem_flatMap.mp ho
  have hentry := hshape entry he
  obtain ⟨rfl, hnode⟩ := hentry.dataFieldNode_eq ho
  have hu := hentry.unwrap_oneof
  by_cases hone : exists? (item lib o.entry "oneof") = true
  · simp [Occurrence.field, parseDataField, oneofSiblings, Occurrence.groupIds, Occurrence.id,
      hentry.unwrap_of_oneof hone, hone, hnode]
  · simp [Occurrence.field, parseDataField, oneofSiblings, Occurrence.groupIds, hu, hone]

/-- The ids of a group are ids of the common data. -/
theorem mem_dataIds_of_mem_groupIds {o : Occurrence Node} (ho : o ∈ occurrences lib t)
    {i : TdiId} (hi : i ∈ o.groupIds lib) : i ∈ dataIds lib t := by
  obtain ⟨entry, he, ho⟩ := List.mem_flatMap.mp ho
  obtain ⟨n, -, rfl⟩ := List.mem_map.mp ho
  refine List.mem_flatMap.mpr ⟨entry, he, ?_⟩
  unfold Occurrence.groupIds at hi
  split_ifs at hi with hone
  · rwa [fieldNodes, if_pos hone]
  · simp at hi

section CommonData

variable {info : TableInfo} (hm : ParsedMaps lib mapper t info)
  (hshape : ∀ entry ∈ tableList lib t "data", EntryShape lib entry)
include hm hshape

/-- Under an id the common data has the field of the id's first occurrence. -/
theorem ParsedMaps.get?_data (i : TdiId) :
    info.tableDataMap.get? i =
      ((occurrences lib t).find? fun o => o.id lib = i).map (Occurrence.field lib) := by
  rw [hm.data, KeyedMap.get?_addAll_empty, List.find?_map]
  refine congrArg _ (List.find?_congr fun o ho => ?_)
  simp [fieldId_field hshape ho]

theorem ParsedMaps.mem_dataKeys (i : TdiId) :
    i ∈ info.tableDataMap.keys ↔ i ∈ dataIds lib t := by
  rw [KeyedMap.mem_keys, hm.get?_data hshape i, ← map_id_occurrences]
  simp [List.find?_isSome]

/-- The siblings of a common field are common fields. -/
theorem ParsedMaps.siblings_closed {i : TdiId} {f : DataFieldInfo}
    (hf : info.tableDataMap.get? i = some f) {s : TdiId} (hs : s ∈ f.oneofSiblings) :
    s ∈ info.tableDataMap.keys := by
  rw [hm.get?_data hshape i, Option.map_eq_some_iff] at hf
  obtain ⟨o, ho, rfl⟩ := hf
  have ho := List.mem_of_find?_eq_some ho
  rw [siblings_field hshape ho] at hs
  have hgroup : s ∈ o.groupIds lib := by simpa using Finset.mem_of_mem_erase hs
  exact (hm.mem_dataKeys hshape s).mpr (mem_dataIds_of_mem_groupIds ho hgroup)

theorem ParsedMaps.represents : Represents lib t info where
  keyFieldIdListGet := by
    have hkeys := keys_perm_map_idOf KeyFieldInfo.fieldId (parseKeyField lib mapper)
      (fun _ => rfl) hm.keyIds_nodup
    rw [← hm.key] at hkeys
    exact (TableInfo.sortIds_perm _).trans hkeys
  actionIdListGet := by
    have hactions := keys_perm_map_idOf ActionInfo.actionId (parseAction lib)
      (fun _ => rfl) hm.actionIds_nodup
    rw [← hm.action] at hactions
    exact (TableInfo.sortIds_perm _).trans hactions
  notificationIds := by
    have hnotifications := keys_perm_map_idOf NotificationInfo.notificationId
      (parseNotificationInfo lib) (fun _ => rfl) hm.notificationIds_nodup
    rwa [← hm.notification] at hnotifications
  dataIds := hm.mem_dataKeys hshape
  firstOccurrence := hm.get?_data hshape
  fieldNode := by
    intro o ho
    obtain ⟨entry, he, ho⟩ := List.mem_flatMap.mp ho
    obtain ⟨rfl, hnode⟩ := (hshape entry he).dataFieldNode_eq ho
    exact hnode
  keyIndexed := ⟨fun i a => KeyedMap.key_of_get?, fun s a => info.of_nameKeyMap⟩
  dataIndexed := ⟨fun i a => KeyedMap.key_of_get?, fun s a => info.of_nameDataMap⟩
  actionIndexed := ⟨fun i a => KeyedMap.key_of_get?, fun s a => info.of_nameActionMap⟩
  notificationIndexed :=
    ⟨fun i a => KeyedMap.key_of_get?, fun s a => info.of_nameNotificationsMap⟩
  siblings := fun o ho => siblings_field hshape ho
  siblings_closed := fun i f hf s hs => hm.siblings_closed hshape hf hs

end CommonData

variable (lib mapper t) in
/-- Parsing a table fails on a repeated id, and else represents the JSON. -/
theorem parseTable_faithful (hshape : ∀ entry ∈ tableList lib t "data", EntryShape lib entry) :
    (parseTable lib mapper t = none ↔
      ¬ (keyIds lib t).Nodup ∨ ¬ (actionIds lib t).Nodup ∨ ¬ (notificationIds lib t).Nodup) ∧
    ∀ info, parseTable lib mapper t = some info → Represents lib t info :=
  ⟨parseTable_eq_none_iff, fun _ h => (parsedMaps_of_parseTable h).represents hshape⟩

end

namespace Document

/-- A table with a plain, a `singleton` and a `oneof` entry, the last repeating an id. -/
def forwardTable : Document :=
  named 1 "forward"
    [("key", .array [named 1 "dst" [], named 2 "src" []]),
     ("data", .array [named 3 "counter" [], entryOf "singleton" (named 4 "ttl" []),
       entryOf "oneof" (.array [named 5 "port" [], named 6 "group" [], named 3 "drop" []])]),
     ("action_specs", .array [named 7 "send" []]),
     ("notifications", .array [named 9 "aged" []])]

end Document

theorem parseTable_faithful_forwardTable :
    (parseTable Document.api ⟨∅, ∅, ∅, ∅⟩ (some Document.forwardTable)).isSome = true ∧
    ∀ info, parseTable Document.api ⟨∅, ∅, ∅, ∅⟩ (some Document.forwardTable) = some info →
      Represents Document.api (some Document.forwardTable) info :=
  ⟨by decide +kernel, (parseTable_faithful _ _ _ (by decide +kernel)).2⟩

end Tdi.Json
