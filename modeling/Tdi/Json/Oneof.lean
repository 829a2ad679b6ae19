import Tdi.Json.InfoParser
import Tdi.Json.Document

/-!
# `oneof` groups in actions and learns

`parseTable` calls `parseDataField` once for each member of a `oneof`. `parseAction`
calls it once with the index 0 and `parseLearn` once with the index 1, so a group in
their scopes yields a single field, read at that index. Hence an action keeps a
group whole only if the group has one member, and a learn keeps none.
-/
namespace Tdi.Json

open Std Foundation Cjson

section

variable {Node : Type} (lib : CjsonApi Node)

/-- The scope of an action. -/
def actionEntries (actionJson : Cjson Node) : List (Cjson Node) :=
  getCjsonChildVec lib (item lib actionJson "data")

/-- The scope of a learn. -/
def learnEntries (learnTdi : Cjson Node) : List (Cjson Node) :=
  getCjsonChildVec lib (item lib learnTdi "fields")

/-- The members of the group an entry is, possibly behind `singleton`. -/
def groupNodes (entry : Cjson Node) : List (Cjson Node) :=
  oneofMembers lib (unwrapSingleton lib entry)

def groupIds (entry : Cjson Node) : List TdiId := (groupNodes lib entry).map (idOf lib)

def isGroup (entry : Cjson Node) : Bool :=
  exists? (item lib (unwrapSingleton lib entry) "oneof")

/-- The ids an entry declares. -/
def declaredIds (entry : Cjson Node) : List TdiId :=
  if isGroup lib entry then groupIds lib entry else [idOf lib (unwrapSingleton lib entry)]

/-- The loop shared by `parseAction` and `parseLearn`: one field for each entry. -/
def scopeFields (oneofIndex : ℕ) (entries : List (Cjson Node)) : KeyedMap DataFieldInfo.fieldId :=
  KeyedMap.empty.addAll (entries.map fun entry => parseDataField lib entry oneofIndex)

/-- The entry whose field is the one stored under an id. -/
def storedFrom (oneofIndex : ℕ) (entries : List (Cjson Node)) (i : TdiId) : Option ℕ :=
  entries.findIdx? fun entry => idOf lib (dataFieldNode lib entry oneofIndex) = i

/-- A group with its place in a scope. Its ids are declared nowhere else. -/
structure GroupIn (entries pre : List (Cjson Node)) (entry : Cjson Node)
    (post : List (Cjson Node)) : Prop where
  entries_eq : entries = pre ++ entry :: post
  isGroup : isGroup lib entry = true
  nonempty : groupNodes lib entry ≠ []
  nodup : (groupIds lib entry).Nodup
  disjoint : ∀ e ∈ pre ++ post, ∀ i ∈ declaredIds lib e, i ∉ groupIds lib entry

/-- A group kept whole by a call of `parseDataField` for each entry of its scope. -/
structure OneofKept (oneofIndex : ℕ) (entries pre : List (Cjson Node)) (entry : Cjson Node)
    (fields : KeyedMap DataFieldInfo.fieldId) : Prop where
  ownField : ∀ m ∈ groupNodes lib entry,
    storedFrom lib oneofIndex entries (idOf lib m) = some pre.length ∧
    dataFieldNode lib entry oneofIndex = m
  siblings : ∀ m ∈ groupNodes lib entry, ∃ f, fields.get? (idOf lib m) = some f ∧
    f.oneofSiblings = (groupIds lib entry).toFinset.erase (idOf lib m)
  siblings_field : ∀ m ∈ groupNodes lib entry, ∀ f, fields.get? (idOf lib m) = some f →
    ∀ s ∈ f.oneofSiblings, (fields.get? s).isSome = true
  noneMissing : exists? (dataFieldNode lib entry oneofIndex) = true
  irreflexive : ∀ m ∈ groupNodes lib entry, ∀ f, fields.get? (idOf lib m) = some f →
    idOf lib m ∉ f.oneofSiblings
  symmetric : ∀ m ∈ groupNodes lib entry, ∀ m' ∈ groupNodes lib entry,
    ∀ f f', fields.get? (idOf lib m) = some f → fields.get? (idOf lib m') = some f' →
    idOf lib m' ∈ f.oneofSiblings → idOf lib m ∈ f'.oneofSiblings

variable {lib} {oneofIndex : ℕ} {entries pre post : List (Cjson Node)} {entry : Cjson Node}

theorem dataFields_parseAction (actionJson : Cjson Node) :
    (parseAction lib actionJson).dataFields =
      scopeFields lib 0 (actionEntries lib actionJson) := rfl

theorem learnFieldMap_parseLearn (learnTdi : Cjson Node) :
    (parseLearn lib learnTdi).learnFieldMap =
      scopeFields lib 1 (learnEntries lib learnTdi) := rfl

/-- What is stored under an id is the field of the entry `storedFrom` names. -/
theorem get?_scopeFields (i : TdiId) :
    (scopeFields lib oneofIndex entries).get? i =
      ((storedFrom lib oneofIndex entries i).bind fun k => entries[k]?).map
        fun entry => parseDataField lib entry oneofIndex := by
  rw [scopeFields, KeyedMap.get?_addAll_empty, List.find?_map]
  exact congrArg _ List.find?_eq_bind_findIdx?_getElem?

theorem storedFrom_eq_some_length_iff (h : entries = pre ++ entry :: post) {i : TdiId} :
    storedFrom lib oneofIndex entries i = some pre.length ↔
      idOf lib (dataFieldNode lib entry oneofIndex) = i ∧
      ∀ e ∈ pre, idOf lib (dataFieldNode lib e oneofIndex) ≠ i := by
  subst h
  rw [storedFrom, List.findIdx?_eq_some_iff_getElem]
  constructor
  · rintro ⟨_, hentry, hpre⟩
    refine ⟨by simpa using hentry, fun e he => ?_⟩
    obtain ⟨k, hk, rfl⟩ := List.getElem_of_mem he
    simpa [List.getElem_append_left hk] using hpre k hk
  · rintro ⟨hentry, hpre⟩
    refine ⟨by simp, by simpa using hentry, fun k hk => ?_⟩
    simpa [List.getElem_append_left hk] using hpre _ (List.getElem_mem hk)

/-- A group is read at the index, and past its end there is nothing. -/
theorem dataFieldNode_of_isGroup (h : isGroup lib entry = true) :
    dataFieldNode lib entry oneofIndex =
      itemAt lib (item lib (unwrapSingleton lib entry) "oneof") oneofIndex :=
  if_pos h

theorem getElem?_groupNodes (h : isGroup lib entry = true)
    (hi : oneofIndex < (groupNodes lib entry).length) :
    (groupNodes lib entry)[oneofIndex]? = some (dataFieldNode lib entry oneofIndex) := by
  rw [dataFieldNode_of_isGroup h]
  rw [groupNodes, oneofMembers, length_getCjsonChildVec _ _ h] at hi
  exact getElem?_getCjsonChildVec _ _ h hi

theorem exists_dataFieldNode_iff (hlib : lib.Lawful) (h : isGroup lib entry = true) :
    exists? (dataFieldNode lib entry oneofIndex) = true ↔
      oneofIndex < (groupNodes lib entry).length := by
  rw [dataFieldNode_of_isGroup h, itemAt_exists hlib h, groupNodes, oneofMembers,
    length_getCjsonChildVec _ _ h]

/-- A missing element has the id 0. -/
theorem idOf_dataFieldNode_of_le (hlib : lib.Lawful) (h : isGroup lib entry = true)
    (hi : (groupNodes lib entry).length ≤ oneofIndex) :
    idOf lib (dataFieldNode lib entry oneofIndex) = 0 := by
  have hnone : dataFieldNode lib entry oneofIndex = none := by
    have hex := (exists_dataFieldNode_iff hlib h).not.mpr (by omega : ¬ oneofIndex < _)
    simpa [exists?] using hex
  simp [idOf, hnone, item, hlib.getObjectItem_none]

/-- An entry whose field takes an id it does not declare is a group read past its end. -/
theorem id_dataFieldNode_cases (hlib : lib.Lawful) (oneofIndex : ℕ) (e : Cjson Node) :
    idOf lib (dataFieldNode lib e oneofIndex) ∈ declaredIds lib e ∨
      isGroup lib e = true ∧ (groupNodes lib e).length ≤ oneofIndex ∧
        idOf lib (dataFieldNode lib e oneofIndex) = 0 := by
  unfold declaredIds
  split_ifs with h
  · rcases lt_or_ge oneofIndex (groupNodes lib e).length with hi | hi
    · exact Or.inl (List.mem_map_of_mem (List.mem_of_getElem? (getElem?_groupNodes h hi)))
    · exact Or.inr ⟨h, hi, idOf_dataFieldNode_of_le hlib h hi⟩
  · have hnode : dataFieldNode lib e oneofIndex = unwrapSingleton lib e := if_neg h
    simp [hnode]

/-- All members of a group that is kept are the one node read for it. -/
theorem OneofKept.length_eq_one {fields : KeyedMap DataFieldInfo.fieldId}
    (hg : GroupIn lib entries pre entry post)
    (h : OneofKept lib oneofIndex entries pre entry fields) :
    (groupNodes lib entry).length = 1 := by
  have hsame : groupNodes lib entry =
      List.replicate (groupNodes lib entry).length (dataFieldNode lib entry oneofIndex) :=
    List.eq_replicate_of_mem fun m hm => ((h.ownField m hm).2).symm
  have hpos := List.length_pos_of_ne_nil hg.nonempty
  have hle : (groupNodes lib entry).length ≤ 1 := by
    have hn := hg.nodup
    rw [groupIds, hsame, List.map_replicate, List.nodup_replicate] at hn
    exact hn
  omega

/-- The only member of a group becomes its field unless an earlier empty group has
taken the id 0 from it. -/
theorem storedFrom_of_single (hlib : lib.Lawful) (hg : GroupIn lib entries pre entry post)
    {m : Cjson Node} (hm : groupNodes lib entry = [m])
    (hempty : ∀ e ∈ pre, isGroup lib e = true → groupNodes lib e = [] → 0 ∉ groupIds lib entry) :
    dataFieldNode lib entry 0 = m ∧ storedFrom lib 0 entries (idOf lib m) = some pre.length := by
  have hids : groupIds lib entry = [idOf lib m] := by simp [groupIds, hm]
  have hnode : dataFieldNode lib entry 0 = m := by
    have hget : (groupNodes lib entry)[0]? = some (dataFieldNode lib entry 0) :=
      getElem?_groupNodes hg.isGroup (by simp [hm])
    simpa [hm] using hget.symm
  refine ⟨hnode, (storedFrom_eq_some_length_iff hg.entries_eq).mpr ⟨by rw [hnode], ?_⟩⟩
  intro e he heq
  rcases id_dataFieldNode_cases hlib 0 e with hd | ⟨hge, hle, h0⟩
  · exact hg.disjoint e (List.mem_append_left _ he) _ hd (by simp [hids, heq])
  · exact hempty e he hge (by simpa using hle) (by simp [hids, ← heq, h0])

theorem oneofKept_of_single (hg : GroupIn lib entries pre entry post) {m : Cjson Node}
    (hm : groupNodes lib entry = [m]) (hnode : dataFieldNode lib entry 0 = m)
    (hstored : storedFrom lib 0 entries (idOf lib m) = some pre.length)
    (hexists : exists? (dataFieldNode lib entry 0) = true) :
    OneofKept lib 0 entries pre entry (scopeFields lib 0 entries) := by
  have hids : (groupIds lib entry).toFinset.erase (idOf lib m) = ∅ := by simp [groupIds, hm]
  have hget :
      (scopeFields lib 0 entries).get? (idOf lib m) = some (parseDataField lib entry 0) := by
    rw [get?_scopeFields, hstored, hg.entries_eq]
    simp
  have hsib : (parseDataField lib entry 0).oneofSiblings = ∅ := by
    rw [← hids, ← hnode]
    exact if_pos hg.isGroup
  have hmem : ∀ m' ∈ groupNodes lib entry, m' = m := by simp [hm]
  have hfield : ∀ m' ∈ groupNodes lib entry, ∀ f,
      (scopeFields lib 0 entries).get? (idOf lib m') = some f → f.oneofSiblings = ∅ := by
    intro m' hm' f hf
    rw [hmem m' hm', hget, Option.some.injEq] at hf
    rw [← hf, hsib]
  constructor
  · intro m' hm'
    rw [hmem m' hm']
    exact ⟨hstored, hnode⟩
  · intro m' hm'
    rw [hmem m' hm']
    exact ⟨_, hget, by rw [hsib, hids]⟩
  · intro m' hm' f hf s hs
    simp [hfield m' hm' f hf] at hs
  · exact hexists
  · intro m' hm' f hf
    simp [hfield m' hm' f hf]
  · intro m' hm' m'' _ f f' hf _ hs
    simp [hfield m' hm' f hf] at hs

/-- A single call per entry keeps a group whole exactly when it reads the group's
only member and no earlier empty group has taken that member's id, which is then 0. -/
theorem oneofKept_scopeFields_iff (hlib : lib.Lawful) (hg : GroupIn lib entries pre entry post) :
    OneofKept lib oneofIndex entries pre entry (scopeFields lib oneofIndex entries) ↔
      oneofIndex = 0 ∧ (groupNodes lib entry).length = 1 ∧
      ∀ e ∈ pre, isGroup lib e = true → groupNodes lib e = [] → 0 ∉ groupIds lib entry := by
  constructor
  · intro h
    have hone := h.length_eq_one hg
    have hindex := (exists_dataFieldNode_iff hlib hg.isGroup).mp h.noneMissing
    obtain rfl : oneofIndex = 0 := by omega
    refine ⟨rfl, hone, fun e he hge hempty h0 => ?_⟩
    obtain ⟨m, hm, hid⟩ := List.mem_map.mp h0
    have hpre := ((storedFrom_eq_some_length_iff hg.entries_eq).mp (h.ownField m hm).1).2 e he
    exact hpre (by rw [hid, idOf_dataFieldNode_of_le hlib hge (by simp [hempty])])
  · rintro ⟨rfl, hone, hempty⟩
    obtain ⟨m, hm⟩ := List.length_eq_one_iff.mp hone
    obtain ⟨hnode, hstored⟩ := storedFrom_of_single hlib hg hm hempty
    refine oneofKept_of_single hg hm hnode hstored ?_
    rw [exists_dataFieldNode_iff hlib hg.isGroup]
    omega

/-- Actions keep a group exactly under that condition; learns keep none. -/
theorem oneofKept_parse_iff (hlib : lib.Lawful) :
    (∀ (actionJson : Cjson Node) (pre post : List (Cjson Node)) (entry : Cjson Node),
      GroupIn lib (actionEntries lib actionJson) pre entry post →
      (OneofKept lib 0 (actionEntries lib actionJson) pre entry
          (parseAction lib actionJson).dataFields ↔
        (groupNodes lib entry).length = 1 ∧
        ∀ e ∈ pre, isGroup lib e = true → groupNodes lib e = [] → 0 ∉ groupIds lib entry)) ∧
    (∀ (learnTdi : Cjson Node) (pre post : List (Cjson Node)) (entry : Cjson Node),
      GroupIn lib (learnEntries lib learnTdi) pre entry post →
      ¬ OneofKept lib 1 (learnEntries lib learnTdi) pre entry
          (parseLearn lib learnTdi).learnFieldMap) := by
  constructor
  · intro actionJson pre post entry hg
    rw [dataFields_parseAction, oneofKept_scopeFields_iff hlib hg]
    simp
  · intro learnTdi pre post entry hg
    rw [learnFieldMap_parseLearn, oneofKept_scopeFields_iff hlib hg]
    simp

end

namespace Document

def portOnly : Document := entryOf "oneof" (.array [named 1 "port" []])

def portOrGroup : Document := entryOf "oneof" (.array [named 1 "port" [], named 2 "group" []])

def actionWith (entry : Document) : Document := named 7 "send" [("data", .array [entry])]

def learnWith (entry : Document) : Document := named 8 "digest" [("fields", .array [entry])]

theorem groupIn_portOnly :
    GroupIn api (actionEntries api (some (actionWith portOnly))) []
      (some portOnly) [] :=
  ⟨rfl, by decide, List.cons_ne_nil _ _, by decide, by simp⟩

theorem groupIn_portOrGroup :
    GroupIn api (actionEntries api (some (actionWith portOrGroup))) []
      (some portOrGroup) [] :=
  ⟨rfl, by decide, List.cons_ne_nil _ _, by decide, by simp⟩

end Document

section

open Document

theorem oneofKept_parse_iff_document :
    OneofKept api 0 [some portOnly] [] (some portOnly)
      (parseAction api (some (actionWith portOnly))).dataFields ∧
    ¬ OneofKept api 1 [some portOrGroup] [] (some portOrGroup)
      (parseLearn api (some (learnWith portOrGroup))).learnFieldMap :=
  ⟨((oneofKept_parse_iff api_lawful).1 _ [] [] _ groupIn_portOnly).mpr
      ⟨by decide, by simp⟩,
    (oneofKept_parse_iff api_lawful).2 (some (learnWith portOrGroup))
      [] [] _ groupIn_portOrGroup⟩

/-- A group of two members loses its second in an action and its first in a learn. -/
theorem oneof_member_lost :
    (∃ pre entry post, GroupIn api
      (actionEntries api (some (actionWith portOrGroup))) pre entry post ∧
      ¬ OneofKept api 0 (actionEntries api (some (actionWith portOrGroup))) pre entry
        (parseAction api (some (actionWith portOrGroup))).dataFields) ∧
    (∃ pre entry post, GroupIn api
      (learnEntries api (some (learnWith portOrGroup))) pre entry post ∧
      ¬ OneofKept api 1 (learnEntries api (some (learnWith portOrGroup))) pre entry
        (parseLearn api (some (learnWith portOrGroup))).learnFieldMap) := by
  have hlost : ((parseAction api
      (some (actionWith portOrGroup))).dataFields.get? 2).isSome = false := by
    decide
  have hlost' : ((parseLearn api
      (some (learnWith portOrGroup))).learnFieldMap.get? 1).isSome = false := by
    decide
  refine ⟨⟨[], some portOrGroup, [], groupIn_portOrGroup, fun h => ?_⟩,
    ⟨[], some portOrGroup, [], groupIn_portOrGroup, fun h => ?_⟩⟩
  · obtain ⟨f, hf, -⟩ := h.siblings (some (named 2 "group" []))
      (List.mem_cons_of_mem _ List.mem_cons_self)
    have hid : idOf api (some (named 2 "group" [])) = 2 := by decide
    rw [hid] at hf
    simp [hf] at hlost
  · obtain ⟨f, hf, -⟩ := h.siblings (some (named 1 "port" [])) List.mem_cons_self
    have hid : idOf api (some (named 1 "port" [])) = 1 := by decide
    rw [hid] at hf
    simp [hf] at hlost'

end

end Tdi.Json
