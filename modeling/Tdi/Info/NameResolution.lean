import Tdi.Info.TdiInfo

/-!
# Looking objects up by name

A name resolves to an object exactly when the object is the only one whose
candidate names contain it. The candidates of a name are its dot suffixes, so a
shortened name that two objects share resolves to neither, and so does a full
name that is a dot suffix of another object's name.
-/
namespace Tdi.Info

open Std Foundation Json

section FullNames

variable {T : Type} {nameMap : ExtTreeMap String T}

theorem populateInOrder_eq_settle (objects : List (String × T)) (names : String → List String) :
    populateInOrder objects names =
      Ledger.settle (Ledger.claimsOf (fun o => names o.1) Prod.snd objects) := by
  unfold populateInOrder Ledger.settle Ledger.claimAll Ledger.claimsOf
  rw [List.foldl_flatMap]
  simp only [List.foldl_map]

/-- Neither the order of the objects nor that of their names matters. -/
theorem populateInOrder_eq {objects : List (String × T)} {names : String → List String}
    (hobjects : objects.Perm nameMap.toList)
    (hnames : ∀ name, (names name).Perm (generateUniqueNames name).toList) :
    populateInOrder objects names = populateFullNameMap nameMap := by
  unfold populateFullNameMap
  rw [populateInOrder_eq_settle, populateInOrder_eq_settle]
  exact Ledger.settle_perm (hobjects.flatMap fun o _ => (hnames o.1).map _)

theorem mem_toList_generateUniqueNames {q name : String} :
    q ∈ (generateUniqueNames name).toList ↔ q ∈ generateUniqueNames name :=
  ExtTreeSet.mem_toList

/-- A name resolves exactly to the object that alone has it as a candidate. -/
theorem getElem?_populateFullNameMap {q : String} {v : T} :
    (populateFullNameMap nameMap)[q]? = some v ↔
      ∃ name, nameMap[name]? = some v ∧ q ∈ generateUniqueNames name ∧
        ∀ name' ∈ nameMap, q ∈ generateUniqueNames name' → name' = name := by
  have hnodup : nameMap.toList.Nodup := by
    refine nameMap.distinct_keys_toList.imp fun {a b} hne he => ?_
    exact hne (by rw [he, compare_self])
  have hnames : ∀ o ∈ nameMap.toList, (generateUniqueNames o.1).toList.Nodup := by
    intro o _
    refine (generateUniqueNames o.1).distinct_toList.imp fun {a b} hne he => ?_
    exact hne (by rw [he, compare_self])
  unfold populateFullNameMap
  rw [populateInOrder_eq_settle, Ledger.getElem?_settle_claimsOf _ _ hnodup hnames]
  constructor
  · rintro ⟨⟨name, v'⟩, ho, hq, rfl, huniq⟩
    refine ⟨name, ExtTreeMap.mem_toList_iff_getElem?_eq_some.mp ho,
      mem_toList_generateUniqueNames.mp hq, fun name' hm hq' => ?_⟩
    have ho' : (name', nameMap[name']) ∈ nameMap.toList :=
      ExtTreeMap.mem_toList_iff_getElem?_eq_some.mpr (ExtTreeMap.getElem?_eq_some_getElem hm)
    exact (Prod.ext_iff.mp (huniq _ ho' (mem_toList_generateUniqueNames.mpr hq'))).1
  · rintro ⟨name, hv, hq, huniq⟩
    refine ⟨(name, v), ExtTreeMap.mem_toList_iff_getElem?_eq_some.mpr hv,
      mem_toList_generateUniqueNames.mpr hq, rfl, ?_⟩
    rintro ⟨name', v'⟩ ho' hq'
    have hv' := ExtTreeMap.mem_toList_iff_getElem?_eq_some.mp ho'
    have hmem : name' ∈ nameMap := ExtTreeMap.mem_iff_isSome_getElem?.mpr (by simp [hv'])
    obtain rfl : name' = name := huniq name' hmem (mem_toList_generateUniqueNames.mp hq')
    rw [hv, Option.some.injEq] at hv'
    rw [hv']

theorem trimDots_of_not_endsInDot {name : String} (h : ¬ EndsInDot name) :
    trimDots name = name := by
  unfold trimDots
  rw [trim_eq_self_iff.mpr h, String.ofList_toList]

theorem mem_generateUniqueNames_of_not_endsInDot {q name : String} (h : ¬ EndsInDot name) :
    q ∈ generateUniqueNames name ↔ DotSuffix q name := by
  rw [mem_generateUniqueNames, trimDots_of_not_endsInDot h]
  simp [h]

/-- No candidate ends in a dot. -/
theorem not_endsInDot_of_mem_generateUniqueNames {q name : String}
    (h : q ∈ generateUniqueNames name) : ¬ EndsInDot q := by
  rcases mem_generateUniqueNames.mp h with hq | ⟨-, rfl⟩
  · refine getLast?_ne_of_isTail_trim (n := name.toList) ?_
    simpa [trimDots] using dotSuffix_iff.mp hq
  · decide

/-- A full name resolves to its own object exactly when it does not end in a dot and
is not a candidate of another name. -/
theorem getElem?_populateFullNameMap_self {name : String} {v : T} (hv : nameMap[name]? = some v) :
    (populateFullNameMap nameMap)[name]? = some v ↔
      ¬ EndsInDot name ∧ ∀ name' ∈ nameMap, name' ≠ name →
        ¬ (DotSuffix name (trimDots name') ∨ (EndsInDot name' ∧ name = "")) := by
  simp only [getElem?_populateFullNameMap, ← mem_generateUniqueNames]
  constructor
  · rintro ⟨other, hother, hmem, huniq⟩
    have hdot := not_endsInDot_of_mem_generateUniqueNames hmem
    have hself : name ∈ generateUniqueNames name :=
      (mem_generateUniqueNames_of_not_endsInDot hdot).mpr (Or.inl rfl)
    obtain rfl : name = other :=
      huniq name (ExtTreeMap.mem_iff_isSome_getElem?.mpr (by simp [hv])) hself
    exact ⟨hdot, fun name' hm hne hq => hne (huniq name' hm hq)⟩
  · rintro ⟨hdot, hothers⟩
    refine ⟨name, hv, (mem_generateUniqueNames_of_not_endsInDot hdot).mpr (Or.inl rfl), ?_⟩
    intro name' hm hq
    by_contra hne
    exact hothers name' hm hne hq

theorem getElem?_populateFullNameMap_of_not_endsInDot
    (h : ∀ name ∈ nameMap, ¬ EndsInDot name) {q : String} {v : T} :
    (populateFullNameMap nameMap)[q]? = some v ↔
      ∃ name, nameMap[name]? = some v ∧ DotSuffix q name ∧
        ∀ name' ∈ nameMap, DotSuffix q name' → name' = name := by
  have hmem : ∀ name ∈ nameMap, (q ∈ generateUniqueNames name ↔ DotSuffix q name) :=
    fun name hm => mem_generateUniqueNames_of_not_endsInDot (h name hm)
  rw [getElem?_populateFullNameMap]
  refine exists_congr fun name => and_congr_right fun hv => ?_
  have hm : name ∈ nameMap := ExtTreeMap.mem_iff_isSome_getElem?.mpr (by simp [hv])
  rw [hmem name hm]
  exact and_congr_right fun _ => forall₂_congr fun name' hm' => by rw [hmem name' hm']

end FullNames

/-- A lookup that succeeds with an object exactly when the query is a dot suffix of its
name and of no other, and else finds nothing. -/
def ResolvesUniqueSuffix {T : Type} (lookup : String → Except TdiStatus T)
    (nameMap : ExtTreeMap String T) : Prop :=
  ∀ q, (∀ object, lookup q = .ok object ↔
      ∃ name, nameMap[name]? = some object ∧ DotSuffix q name ∧
        ∀ name' ∈ nameMap, DotSuffix q name' → name' = name) ∧
    ((∀ object, lookup q ≠ .ok object) → lookup q = .error .objectNotFound)

/-- The full name map is what any order of objects and names would have given. -/
def OrderFree {T : Type} (nameMap fullNameMap : ExtTreeMap String T) : Prop :=
  ∀ objects names, List.Perm objects nameMap.toList →
    (∀ name, List.Perm (names name) (generateUniqueNames name).toList) →
    populateInOrder objects names = fullNameMap

namespace TdiInfo

variable {Table : Type} {info : TdiInfo Table}

theorem tableFromNameGet_eq_ok_iff {q : String} {table : Table} :
    info.tableFromNameGet q = .ok table ↔
      q ∉ info.invalidTableNames ∧ (populateFullNameMap info.tableMap)[q]? = some table := by
  rw [← info.fullTableMap_eq]
  unfold tableFromNameGet
  split_ifs with h
  · simp [h]
  · cases hq : info.fullTableMap[q]? <;> simp [h]

theorem learnFromNameGet_eq_ok_iff {q : String} {learn : Learn} :
    info.learnFromNameGet q = .ok learn ↔
      (populateFullNameMap info.learnMap)[q]? = some learn := by
  rw [← info.fullLearnMap_eq]
  unfold learnFromNameGet
  cases hq : info.fullLearnMap[q]? <;> simp

theorem tableFromNameGet_of_forall_ne_ok (h : info.invalidTableNames = ∅) {q : String}
    (hq : ∀ table, info.tableFromNameGet q ≠ .ok table) :
    info.tableFromNameGet q = .error .objectNotFound := by
  unfold tableFromNameGet at hq ⊢
  rw [h, if_neg (by simp)] at hq ⊢
  cases hl : info.fullTableMap[q]? with
  | none => rfl
  | some table =>
    rw [hl] at hq
    exact absurd rfl (hq table)

theorem learnFromNameGet_of_forall_ne_ok {q : String}
    (hq : ∀ learn, info.learnFromNameGet q ≠ .ok learn) :
    info.learnFromNameGet q = .error .objectNotFound := by
  unfold learnFromNameGet at hq ⊢
  cases hl : info.fullLearnMap[q]? with
  | none => rfl
  | some learn =>
    rw [hl] at hq
    exact absurd rfl (hq learn)

/-- Lookup by name is unique-suffix resolution. -/
theorem fromNameGet_resolves (info : TdiInfo Table) :
    (info.invalidTableNames = ∅ → (∀ name ∈ info.tableMap, ¬ EndsInDot name) →
      ResolvesUniqueSuffix info.tableFromNameGet info.tableMap ∧
      OrderFree info.tableMap info.fullTableMap) ∧
    ((∀ name ∈ info.learnMap, ¬ EndsInDot name) →
      ResolvesUniqueSuffix info.learnFromNameGet info.learnMap ∧
      OrderFree info.learnMap info.fullLearnMap) := by
  constructor
  · intro hvalid hnames
    refine ⟨fun q => ⟨fun table => ?_, tableFromNameGet_of_forall_ne_ok hvalid⟩, ?_⟩
    · rw [tableFromNameGet_eq_ok_iff, hvalid, getElem?_populateFullNameMap_of_not_endsInDot hnames]
      simp
    · intro objects names hobjects horder
      rw [info.fullTableMap_eq]
      exact populateInOrder_eq hobjects horder
  · intro hnames
    refine ⟨fun q => ⟨fun learn => ?_, learnFromNameGet_of_forall_ne_ok⟩, ?_⟩
    · rw [learnFromNameGet_eq_ok_iff, getElem?_populateFullNameMap_of_not_endsInDot hnames]
    · intro objects names hobjects horder
      rw [info.fullLearnMap_eq]
      exact populateInOrder_eq hobjects horder

/-- When a full name reaches its own object. -/
theorem fromNameGet_self_iff (info : TdiInfo Table) :
    (∀ name table, info.tableMap[name]? = some table → name ∉ info.invalidTableNames →
      (info.tableFromNameGet name = .ok table ↔
        ¬ EndsInDot name ∧ ∀ name' ∈ info.tableMap, name' ≠ name →
          ¬ (DotSuffix name (trimDots name') ∨ (EndsInDot name' ∧ name = "")))) ∧
    (∀ name learn, info.learnMap[name]? = some learn →
      (info.learnFromNameGet name = .ok learn ↔
        ¬ EndsInDot name ∧ ∀ name' ∈ info.learnMap, name' ≠ name →
          ¬ (DotSuffix name (trimDots name') ∨ (EndsInDot name' ∧ name = "")))) := by
  constructor
  · intro name table htable hvalid
    rw [tableFromNameGet_eq_ok_iff, getElem?_populateFullNameMap_self htable]
    exact and_iff_right hvalid
  · intro name learn hlearn
    rw [learnFromNameGet_eq_ok_iff, getElem?_populateFullNameMap_self hlearn]

end TdiInfo

/-- Tables and learns that are nothing but their ids. -/
def schemaOf (names : List (String × TdiId)) : TdiInfoParser where
  tableInfoMap := ExtTreeMap.ofList (names.map fun n => (n.1, TableInfo.make
    { id := n.2, name := n.1, tableType := tableTypeCore, size := 0,
      hasConstDefaultAction := false, isConst := false, tableKeyMap := KeyedMap.empty,
      tableDataMap := KeyedMap.empty, tableActionMap := KeyedMap.empty,
      tableNotificationMap := KeyedMap.empty, dependsOnSet := ∅, operationsTypeSet := ∅,
      attributesTypeSet := ∅, annotations := KeyedMap.empty }))
  learnInfoMap := ExtTreeMap.ofList (names.map fun n =>
    (n.1, (⟨n.2, n.1, KeyedMap.empty, KeyedMap.empty⟩ : LearnInfo)))

def infoOf (names : List (String × TdiId)) : TdiInfo TableInfo :=
  TdiInfo.makeTdiInfo "program" (schemaOf names) ⟨some, id⟩

def forwardTables : TdiInfo TableInfo := infoOf [("pipe.SI.forward", 1), ("pipe.SE.forward", 2)]

def nestedTables : TdiInfo TableInfo := infoOf [("a", 1), ("x.a", 2)]

theorem keys_forwardTables :
    forwardTables.tableMap.keys = ["pipe.SE.forward", "pipe.SI.forward"] := by
  decide

theorem keys_forwardTables_learnMap :
    forwardTables.learnMap.keys = ["pipe.SE.forward", "pipe.SI.forward"] := by
  decide

theorem fromNameGet_resolves_forwardTables :
    ResolvesUniqueSuffix forwardTables.tableFromNameGet forwardTables.tableMap ∧
    ResolvesUniqueSuffix forwardTables.learnFromNameGet forwardTables.learnMap := by
  have hnames : ∀ name ∈ ["pipe.SE.forward", "pipe.SI.forward"], ¬ EndsInDot name := by decide
  have htables : ∀ name ∈ forwardTables.tableMap, ¬ EndsInDot name := by
    intro name hm
    rw [← ExtTreeMap.mem_keys, keys_forwardTables] at hm
    exact hnames name hm
  have hlearns : ∀ name ∈ forwardTables.learnMap, ¬ EndsInDot name := by
    intro name hm
    rw [← ExtTreeMap.mem_keys, keys_forwardTables_learnMap] at hm
    exact hnames name hm
  exact ⟨((TdiInfo.fromNameGet_resolves forwardTables).1 rfl htables).1,
    ((TdiInfo.fromNameGet_resolves forwardTables).2 hlearns).1⟩

theorem fromNameGet_self_iff_forwardTables :
    ∃ table, forwardTables.tableMap["pipe.SI.forward"]? = some table ∧
      forwardTables.tableFromNameGet "pipe.SI.forward" = .ok table := by
  have hsome : (forwardTables.tableMap["pipe.SI.forward"]?).isSome = true := by decide
  obtain ⟨table, htable⟩ := Option.isSome_iff_exists.mp hsome
  have hothers : ∀ name' ∈ forwardTables.tableMap, name' ≠ "pipe.SI.forward" →
      ¬ (DotSuffix "pipe.SI.forward" (trimDots name') ∨
        (EndsInDot name' ∧ "pipe.SI.forward" = "")) := by
    intro name' hm hne
    rw [← ExtTreeMap.mem_keys, keys_forwardTables] at hm
    obtain rfl : name' = "pipe.SE.forward" := by simpa [hne] using hm
    rw [← mem_generateUniqueNames]
    decide
  exact ⟨table, htable, ((TdiInfo.fromNameGet_self_iff forwardTables).1 _ table htable
    (by decide)).mpr ⟨by decide, hothers⟩⟩

/-- The full name of the first object is a shortened name of the second. -/
theorem fullName_not_found :
    (∃ table, nestedTables.tableMap["a"]? = some table ∧ "a" ∉ nestedTables.invalidTableNames ∧
      nestedTables.tableFromNameGet "a" = .error .objectNotFound) ∧
    ∃ learn, nestedTables.learnMap["a"]? = some learn ∧
      nestedTables.learnFromNameGet "a" = .error .objectNotFound := by
  have htables : (nestedTables.tableMap["a"]?).isSome = true := by decide
  have hlearns : (nestedTables.learnMap["a"]?).isSome = true := by decide
  obtain ⟨table, htable⟩ := Option.isSome_iff_exists.mp htables
  obtain ⟨learn, hlearn⟩ := Option.isSome_iff_exists.mp hlearns
  exact ⟨⟨table, htable, by decide, rfl⟩, learn, hlearn, rfl⟩

end Tdi.Info
