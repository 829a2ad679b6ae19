import Tdi.Cli.Value
import Tdi.Defs

/-!
# Nested tables

`_init_tables` makes an object for each table, files it under its name and its id,
and then goes through the objects by their ids. A table of a nested type that
depends on others gets a new name, below that of its first dependency, and its
object is filed under it instead.

An object is known by its id here. The names are kept apart, as they are what the
loop changes.
-/
namespace Tdi.Cli.NestedTables

open Foundation

/-- A table as the driver describes it. -/
structure TableObj where
  id : TdiId
  name : String
  tableType : String
  /-- the answer of `tdi_tables_this_table_depends_on_get` -/
  deps : List TdiId
  deriving DecidableEq

/-- `TdiInfo`, as far as its tables go. -/
structure TdiInfo where
  tables : Dict TdiId
  name : TdiId → String
  tblDepMap : List (TdiId × List TdiId)

/-- What the driver answers when the tables are set up. -/
structure TablesDriver where
  numTablesGet : TdiStatus
  tablesGet : TdiStatus
  tables : List TableObj

section Names

/-- `name.rfind('.')` -/
def rfindDot (name : List Char) : ℤ :=
  match name.reverse.findIdx? (· = '.') with
  | some i => name.length - 1 - i
  | none => -1

/-- `name[start:]`, which counts a negative start from the end. -/
def sliceFrom (name : List Char) (start : ℤ) : List Char :=
  if 0 ≤ start then name.drop start.toNat else name.drop (name.length + start).toNat

/-- `name[name.rfind('.'):]` -/
def fromLastDot (name : String) : String :=
  String.ofList (sliceFrom name.toList (rfindDot name.toList))

/-- The last component of a name. -/
def lastComponent (name : String) : String := String.ofList (name.toList.rtakeWhile (· ≠ '.'))

theorem findIdx?_dot_eq_none {name : List Char} (h : '.' ∉ name) :
    name.findIdx? (· = '.') = none := by
  rw [List.findIdx?_eq_none_iff]
  intro c hc
  rw [decide_eq_false_iff_not]
  rintro rfl
  exact h hc

theorem fromLastDot_of_mem {name : String} (h : '.' ∈ name.toList) :
    fromLastDot name = "." ++ lastComponent name := by
  obtain ⟨b, a, hsplit, hb⟩ := List.eq_append_cons_of_mem (List.mem_reverse.mpr h)
  have hname : name.toList = a.reverse ++ '.' :: b.reverse := by
    rw [← List.reverse_reverse name.toList, hsplit]
    simp
  have hindex : name.toList.reverse.findIdx? (· = '.') = some b.length := by
    rw [hsplit, List.findIdx?_append, findIdx?_dot_eq_none hb, List.findIdx?_cons]
    simp
  have hrfind : rfindDot name.toList = (a.length : ℤ) := by
    rw [rfindDot, hindex, hname]
    simp
    omega
  have hlast : name.toList.rtakeWhile (· ≠ '.') = b.reverse := by
    rw [List.rtakeWhile, hsplit, List.takeWhile_append_of_pos]
    · simp
    · intro c hc
      simpa using fun he : c = '.' => hb (he ▸ hc)
  rw [fromLastDot, lastComponent, hrfind, hlast, hname, sliceFrom, if_pos (by omega)]
  simp

/-- The position -1 is that of the last character. -/
theorem length_fromLastDot_of_not_mem {name : String} (h : '.' ∉ name.toList) :
    (fromLastDot name).toList.length = min 1 name.toList.length := by
  have hindex := findIdx?_dot_eq_none (mt List.mem_reverse.mp h)
  have hrfind : rfindDot name.toList = -1 := by rw [rfindDot, hindex]
  rw [fromLastDot, hrfind, sliceFrom, if_neg (by omega), String.toList_ofList, List.length_drop]
  omega

end Names

/-- The object of a table is filed under its name. -/
def TdiInfo.add (info : TdiInfo) (t : TableObj) : TdiInfo where
  tables := info.tables.set t.name t.id
  name := Function.update info.name t.id t.name
  tblDepMap := info.tblDepMap

/-- The loop that makes the objects: none is `-1`. -/
def makeTables : List TableObj → TdiInfo → Option TdiInfo
  | [], info => some info
  | t :: ts, info => if t.tableType = "INVLD" then none else makeTables ts (info.add t)

section Loop

variable (tables : List TableObj) (nested : List String)

/-- One round of the loop over the dependencies. `tables` are those of `tbl_id_map`. -/
def nestTable (info : TdiInfo) (t : TableObj) : Except Raised TdiInfo :=
  match t.deps with
  | [] => .ok info
  | dep :: _ =>
    let tblDepMap := info.tblDepMap ++ [(t.id, t.deps)]
    if t.tableType ∈ nested then
      if dep ∈ tables.map TableObj.id then
        let newName := info.name dep ++ fromLastDot (info.name t.id)
        let filed := info.tables.set newName t.id
        if info.name t.id ∈ filed.keys then
          .ok ⟨filed.erase (info.name t.id), Function.update info.name t.id newName, tblDepMap⟩
        else .error .keyError
      else .error .keyError
    else .ok { info with tblDepMap }

/-- The loop over `tbl_id_map.items()` -/
def nestTables (order : List TableObj) (info : TdiInfo) : Except Raised TdiInfo :=
  order.foldlM (nestTable tables nested) info

end Loop

/-- `_init_tables`, where the second loop goes through the tables in some order: none is a status
other than 0. -/
def initTablesIn (driver : TablesDriver) (nested : List String) (order : List TableObj) :
    Except Raised (Option TdiInfo) :=
  if driver.numTablesGet ≠ .success then .ok none
  else if driver.tablesGet ≠ .success then .ok none
  else
    match makeTables driver.tables ⟨.empty, fun _ => "", []⟩ with
    | none => .ok none
    | some info => (nestTables driver.tables nested order info).map some

/-- `tbl_id_map.items()` are in the order in which the first loop put them there. -/
def initTables (driver : TablesDriver) (nested : List String) : Except Raised (Option TdiInfo) :=
  initTablesIn driver nested driver.tables

/-- Tables with distinct ids and distinct names that depend on each other only. -/
structure TableSet where
  tables : List TableObj
  ids_nodup : (tables.map TableObj.id).Nodup
  names_nodup : (tables.map TableObj.name).Nodup
  deps_mem : ∀ t ∈ tables, ∀ dep ∈ t.deps, dep ∈ tables.map TableObj.id

namespace TableSet

variable (s : TableSet) (nested : List String)

/-- What the first loop leaves to the second. -/
def info : TdiInfo := s.tables.foldl TdiInfo.add ⟨.empty, fun _ => "", []⟩

theorem makeTables_eq {tables : List TableObj} (h : ∀ t ∈ tables, t.tableType ≠ "INVLD")
    (info : TdiInfo) : makeTables tables info = some (tables.foldl TdiInfo.add info) := by
  induction tables generalizing info with
  | nil => rfl
  | cons t tables ih =>
    obtain ⟨ht, htables⟩ := List.forall_mem_cons.mp h
    rw [makeTables, if_neg ht, ih htables, List.foldl_cons]

/-- The driver answers, and describes these tables, with types that are known. -/
structure Answers (driver : TablesDriver) : Prop where
  numTablesGet : driver.numTablesGet = .success
  tablesGet : driver.tablesGet = .success
  tables : driver.tables = s.tables
  types : ∀ t ∈ s.tables, t.tableType ≠ "INVLD"

variable {s} in
/-- With such a driver `_init_tables` is the second loop. -/
theorem Answers.initTablesIn_eq {driver : TablesDriver} (h : s.Answers driver)
    (order : List TableObj) :
    initTablesIn driver nested order = (nestTables s.tables nested order s.info).map some := by
  rw [initTablesIn, if_neg (not_not.mpr h.numTablesGet), if_neg (not_not.mpr h.tablesGet),
    h.tables, makeTables_eq h.types]
  rfl

variable {s}

theorem eq_of_id {t u : TableObj} (ht : t ∈ s.tables) (hu : u ∈ s.tables) (h : t.id = u.id) :
    t = u :=
  List.inj_on_of_nodup_map s.ids_nodup ht hu h

theorem eq_of_name {t u : TableObj} (ht : t ∈ s.tables) (hu : u ∈ s.tables)
    (h : t.name = u.name) : t = u :=
  List.inj_on_of_nodup_map s.names_nodup ht hu h

theorem tables_foldl_add (l : List TableObj) (info : TdiInfo) :
    (l.foldl TdiInfo.add info).tables =
      (l.map fun t => (t.name, t.id)).foldl (fun d p => d.set p.1 p.2) info.tables := by
  induction l generalizing info with
  | nil => rfl
  | cons t l ih =>
    rw [List.foldl_cons, ih]
    rfl

theorem get?_info {k : String} {id : TdiId} :
    s.info.tables.get? k = some id ↔ ∃ t ∈ s.tables, t.name = k ∧ t.id = id := by
  have hnodup : ((s.tables.map fun t => (t.name, t.id)).map Prod.fst).Nodup := by
    rw [List.map_map]
    exact s.names_nodup
  rw [Dict.get?_eq_some_iff, info, tables_foldl_add]
  change (k, id) ∈ (Dict.ofList _).entries ↔ _
  rw [Dict.entries_ofList hnodup]
  simp

theorem name_foldl_add_of_not_mem {l : List TableObj} {id : TdiId}
    (h : id ∉ l.map TableObj.id) (info : TdiInfo) :
    (l.foldl TdiInfo.add info).name id = info.name id := by
  induction l generalizing info with
  | nil => rfl
  | cons t l ih =>
    rw [List.map_cons, List.mem_cons, not_or] at h
    rw [List.foldl_cons, ih h.2]
    exact Function.update_of_ne h.1 _ _

theorem name_info {t : TableObj} (ht : t ∈ s.tables) : s.info.name t.id = t.name := by
  obtain ⟨before, after, hsplit⟩ := List.append_of_mem ht
  have hnodup := s.ids_nodup
  rw [hsplit, List.map_append, List.map_cons, List.nodup_middle, List.nodup_cons,
    List.mem_append, not_or] at hnodup
  rw [info, hsplit, List.foldl_append, List.foldl_cons,
    name_foldl_add_of_not_mem hnodup.1.2]
  exact Function.update_self _ _ _

variable (s)

/-- The first dependency of a table of a nested type. -/
def parent (t : TableObj) : Option TableObj :=
  if t.tableType ∈ nested then
    t.deps.head?.bind fun dep => s.tables.find? (·.id = dep)
  else none

variable {s nested}

theorem find?_id {t : TableObj} (ht : t ∈ s.tables) :
    s.tables.find? (·.id = t.id) = some t := by
  cases hfind : s.tables.find? (·.id = t.id) with
  | none =>
    rw [List.find?_eq_none] at hfind
    exact absurd (hfind t ht) (by simp)
  | some u =>
    have hid := List.find?_some hfind
    rw [eq_of_id (List.mem_of_find?_eq_some hfind) ht (by simpa using hid)]

theorem parent_eq_some_iff {t p : TableObj} :
    s.parent nested t = some p ↔
      t.tableType ∈ nested ∧ p ∈ s.tables ∧ ∃ deps, t.deps = p.id :: deps := by
  unfold parent
  constructor
  · intro h
    split at h
    next htype =>
      obtain ⟨dep, hdep, hfind⟩ := Option.bind_eq_some_iff.mp h
      obtain ⟨deps, hdeps⟩ := List.head?_eq_some_iff.mp hdep
      have hid := List.find?_some hfind
      rw [decide_eq_true_iff] at hid
      exact ⟨htype, List.mem_of_find?_eq_some hfind, deps, by rw [hdeps, hid]⟩
    · cases h
  · rintro ⟨htype, hp, deps, hdeps⟩
    rw [if_pos htype, hdeps]
    exact find?_id hp

theorem parent_eq_none_iff {t : TableObj} (ht : t ∈ s.tables) :
    s.parent nested t = none ↔ (t.tableType ∈ nested → t.deps = []) := by
  constructor
  · intro h htype
    cases hdeps : t.deps with
    | nil => rfl
    | cons dep deps =>
      obtain ⟨p, hp, rfl⟩ := List.mem_map.mp (s.deps_mem t ht dep (by simp [hdeps]))
      rw [parent_eq_some_iff.mpr ⟨htype, hp, deps, hdeps⟩] at h
      cases h
  · intro h
    rw [Option.eq_none_iff_forall_ne_some]
    intro p hp
    obtain ⟨htype, -, deps, hdeps⟩ := parent_eq_some_iff.mp hp
    rw [h htype] at hdeps
    cases hdeps

section Step

variable {info info' : TdiInfo} {t p : TableObj} {id : TdiId} {k : String}

theorem of_nestTable_of_none (ht : t ∈ s.tables) (hnone : s.parent nested t = none)
    (info : TdiInfo) : ∃ info', nestTable s.tables nested info t = .ok info' ∧
      info'.tables = info.tables ∧ info'.name = info.name := by
  have hdeps := (parent_eq_none_iff ht).mp hnone
  unfold nestTable
  split
  · exact ⟨info, rfl, rfl, rfl⟩
  next dep deps hcons =>
    have htype : t.tableType ∉ nested := by
      intro htype
      rw [hdeps htype] at hcons
      cases hcons
    rw [if_neg htype]
    exact ⟨_, rfl, rfl, rfl⟩

theorem nestTable_of_some (hsome : s.parent nested t = some p) (info : TdiInfo) :
    nestTable s.tables nested info t =
      if info.name t.id ∈
          (info.tables.set (info.name p.id ++ fromLastDot (info.name t.id)) t.id).keys then
        .ok ⟨(info.tables.set (info.name p.id ++ fromLastDot (info.name t.id)) t.id).erase
            (info.name t.id),
          Function.update info.name t.id (info.name p.id ++ fromLastDot (info.name t.id)),
          info.tblDepMap ++ [(t.id, t.deps)]⟩
      else .error .keyError := by
  obtain ⟨htype, hp, deps, hdeps⟩ := parent_eq_some_iff.mp hsome
  rw [nestTable, hdeps]
  dsimp only
  rw [if_pos htype, if_pos (List.mem_map_of_mem hp)]

/-- The object leaves its name for the new one. -/
theorem of_nestTable_of_some (hsome : s.parent nested t = some p)
    (h : nestTable s.tables nested info t = .ok info') :
    info'.name =
        Function.update info.name t.id (info.name p.id ++ fromLastDot (info.name t.id)) ∧
      ∀ k, info'.tables.get? k =
        if k = info.name t.id then none
        else if k = info.name p.id ++ fromLastDot (info.name t.id) then some t.id
        else info.tables.get? k := by
  rw [nestTable_of_some hsome] at h
  split at h
  · cases h
    refine ⟨rfl, fun k => ?_⟩
    rw [Dict.get?_erase, Dict.get?_set]
  · cases h

/-- What a step leaves of an object: its name, and no key that it was not filed under. -/
def Untouched (info info' : TdiInfo) (id : TdiId) : Prop :=
  info'.name id = info.name id ∧
    ∀ k, info'.tables.get? k = some id → info.tables.get? k = some id

theorem untouched_nestTable (ht : t ∈ s.tables)
    (h : nestTable s.tables nested info t = .ok info') (hne : id ≠ t.id) :
    Untouched info info' id := by
  cases hparent : s.parent nested t with
  | none =>
    obtain ⟨info'', hstep, htables, hname⟩ := of_nestTable_of_none ht hparent info
    rw [hstep] at h
    cases h
    rw [Untouched, htables, hname]
    exact ⟨rfl, fun k hk => hk⟩
  | some p =>
    obtain ⟨hname, htables⟩ := of_nestTable_of_some hparent h
    refine ⟨by rw [hname, Function.update_of_ne hne], fun k hk => ?_⟩
    rw [htables] at hk
    split at hk
    · cases hk
    split at hk
    · cases hk
      exact absurd rfl hne
    · exact hk

theorem of_nestTables_cons {tables order : List TableObj}
    (h : nestTables tables nested (t :: order) info = .ok info') :
    ∃ next, nestTable tables nested info t = .ok next ∧
      nestTables tables nested order next = .ok info' := by
  exact foldlM_cons_eq_ok_iff.mp h

theorem untouched_nestTables {order : List TableObj} (horder : ∀ t ∈ order, t ∈ s.tables)
    (h : nestTables s.tables nested order info = .ok info') (hid : id ∉ order.map TableObj.id) :
    Untouched info info' id := by
  induction order generalizing info with
  | nil =>
    cases h
    exact ⟨rfl, fun k hk => hk⟩
  | cons t order ih =>
    obtain ⟨next, hstep, hrest⟩ := of_nestTables_cons h
    obtain ⟨ht, horder⟩ := List.forall_mem_cons.mp horder
    rw [List.map_cons, List.mem_cons, not_or] at hid
    obtain ⟨hname, hfiled⟩ := untouched_nestTable ht hstep hid.1
    obtain ⟨hname', hfiled'⟩ := ih horder hrest hid.2
    exact ⟨hname'.trans hname, fun k hk => hfiled k (hfiled' k hk)⟩

end Step

/-- The tables are renamed as they should be, in whichever order the second loop goes through them.
Every object is filed under its own name and nowhere else, nested tables are named after their
first dependency, and names and keys do not depend on the order. -/
structure Keeps (s : TableSet) (nested : List String)
    (run : List TableObj → Except Raised (Option TdiInfo)) : Prop where
  renamed : ∀ order, order.Perm s.tables →
    ∃ info, run order = .ok (some info) ∧
      (∀ t ∈ s.tables, ∀ k, info.tables.get? k = some t.id ↔ k = info.name t.id) ∧
      ∀ t ∈ s.tables, t.tableType ∈ nested → ∀ dep deps, t.deps = dep :: deps →
        info.name t.id = info.name dep ++ "." ++ lastComponent t.name
  unordered : ∀ order order', order.Perm s.tables → order'.Perm s.tables → ∀ info info',
    run order = .ok (some info) → run order' = .ok (some info') →
    info.tables.get? = info'.tables.get? ∧ ∀ t ∈ s.tables, info.name t.id = info'.name t.id

/-- `_init_tables` loses no table. -/
def KeepsAll (s : TableSet) (driver : TablesDriver) (nested : List String) : Prop :=
  s.Keeps nested (initTablesIn driver nested)

/-- The second loop by itself. -/
def LoopKeeps (s : TableSet) (nested : List String) : Prop :=
  s.Keeps nested fun order => (nestTables s.tables nested order s.info).map some

theorem map_some_eq_ok_iff {r : Except Raised TdiInfo} {info : TdiInfo} :
    r.map some = .ok (some info) ↔ r = .ok info := by
  cases r <;> simp [Except.map]

theorem Answers.keepsAll_iff_loopKeeps {driver : TablesDriver} (h : s.Answers driver) :
    s.KeepsAll driver nested ↔ s.LoopKeeps nested := by
  rw [KeepsAll, LoopKeeps, funext fun order => h.initTablesIn_eq nested order]

/-- The nested tables are one level deep, have a dot in their names, and their new names are
apart from each other and from the names there are. -/
structure Apart (s : TableSet) (nested : List String) : Prop where
  dotted : ∀ t ∈ s.tables, ∀ p, s.parent nested t = some p → '.' ∈ t.name.toList
  flat : ∀ t ∈ s.tables, ∀ p, s.parent nested t = some p → s.parent nested p = none
  fresh : ∀ t ∈ s.tables, ∀ p, s.parent nested t = some p →
    ∀ u ∈ s.tables, p.name ++ fromLastDot t.name ≠ u.name
  distinct : ∀ t ∈ s.tables, ∀ u ∈ s.tables, ∀ p q, s.parent nested t = some p →
    s.parent nested u = some q → p.name ++ fromLastDot t.name = q.name ++ fromLastDot u.name →
    t = u

section Names

variable (s nested)

/-- The name of a table in the end, where nested tables are one level deep. -/
def finalName (t : TableObj) : String :=
  match s.parent nested t with
  | none => t.name
  | some p => p.name ++ fromLastDot t.name

/-- The name of a table after the loop went through some of them. -/
def nameAfter (done : List TableObj) (t : TableObj) : String :=
  if t ∈ done then s.finalName nested t else t.name

variable {s nested} {done : List TableObj} {t u : TableObj}

theorem nameAfter_of_none (hnone : s.parent nested t = none) :
    s.nameAfter nested done t = t.name := by
  simp [nameAfter, finalName, hnone]

theorem nameAfter_concat_self : s.nameAfter nested (done ++ [t]) t = s.finalName nested t := by
  simp [nameAfter]

theorem nameAfter_concat_of_ne (hne : u ≠ t) :
    s.nameAfter nested (done ++ [t]) u = s.nameAfter nested done u := by
  simp [nameAfter, hne]

/-- The objects are filed under the names they have by then, and under no others. -/
def FiledAfter (s : TableSet) (nested : List String) (done : List TableObj) (info : TdiInfo) :
    Prop :=
  ∀ k id, info.tables.get? k = some id ↔
    ∃ t ∈ s.tables, s.nameAfter nested done t = k ∧ t.id = id

theorem nestTables_concat_eq_ok_iff {tables order : List TableObj} {info info' : TdiInfo} :
    nestTables tables nested (order ++ [t]) info = .ok info' ↔
      ∃ next, nestTables tables nested order info = .ok next ∧
        nestTable tables nested next t = .ok info' := by
  rw [nestTables, List.foldlM_append, bind_eq_ok_iff]
  simp only [List.foldlM_cons, List.foldlM_nil, bind_pure]
  rfl

theorem of_concat {order : List TableObj} (horder : ∀ u ∈ order ++ [t], u ∈ s.tables)
    (hnodup : (order ++ [t]).Nodup) :
    (∀ u ∈ order, u ∈ s.tables) ∧ t ∈ s.tables ∧ t ∉ order ∧ order.Nodup := by
  rw [← List.concat_eq_append, List.nodup_concat] at hnodup
  obtain ⟨horder, ht⟩ := List.forall_mem_append.mp horder
  exact ⟨horder, ht t (List.mem_singleton_self t), hnodup.1, hnodup.2⟩

/-- Where nested tables are one level deep, the loop gives each its final name. -/
theorem name_of_nestTables
    (hflat : ∀ t ∈ s.tables, ∀ p, s.parent nested t = some p → s.parent nested p = none)
    {order : List TableObj} (horder : ∀ t ∈ order, t ∈ s.tables) (hnodup : order.Nodup)
    {info : TdiInfo} (h : nestTables s.tables nested order s.info = .ok info) :
    ∀ u ∈ s.tables, info.name u.id = s.nameAfter nested order u := by
  induction order using List.reverseRecOn generalizing info with
  | nil =>
    cases h
    intro u hu
    rw [name_info hu]
    rfl
  | append_singleton order t ih =>
    obtain ⟨next, hnext, hstep⟩ := nestTables_concat_eq_ok_iff.mp h
    obtain ⟨horder, ht, hnew, hnodup⟩ := of_concat horder hnodup
    have ih := ih horder hnodup hnext
    intro u hu
    by_cases hne : u = t
    · rw [hne, nameAfter_concat_self]
      cases hparent : s.parent nested t with
      | none =>
        obtain ⟨info', hstep', -, hname⟩ := of_nestTable_of_none ht hparent next
        rw [hstep'] at hstep
        cases hstep
        rw [hname, ih t ht, nameAfter_of_none hparent, finalName, hparent]
      | some p =>
        obtain ⟨hname, -⟩ := of_nestTable_of_some hparent hstep
        obtain ⟨-, hp, -⟩ := parent_eq_some_iff.mp hparent
        rw [hname, Function.update_self, ih p hp, nameAfter_of_none (hflat t ht p hparent),
          ih t ht, nameAfter, if_neg hnew, finalName, hparent]
    · have hid : u.id ≠ t.id := fun hid => hne (eq_of_id hu ht hid)
      rw [nameAfter_concat_of_ne hne, (untouched_nestTable ht hstep hid).1, ih u hu]

end Names

section Sufficient

variable (hapart : s.Apart nested) {t u p : TableObj} {done : List TableObj}

include hapart

/-- The name that a nested table leaves is free, -/
theorem nameAfter_ne_name (ht : t ∈ s.tables) (hu : u ∈ s.tables) (hne : u ≠ t) :
    s.nameAfter nested done u ≠ t.name := by
  have hname : u.name ≠ t.name := fun h => hne (eq_of_name hu ht h)
  unfold nameAfter finalName
  split
  · split
    · exact hname
    next q hq => exact hapart.fresh u hu q hq t ht
  · exact hname

/-- and so is the one it gets. -/
theorem nameAfter_ne_finalName (ht : t ∈ s.tables) (hparent : s.parent nested t = some p)
    (hu : u ∈ s.tables) (hne : u ≠ t) : s.nameAfter nested done u ≠ s.finalName nested t := by
  have hfinal : s.finalName nested t = p.name ++ fromLastDot t.name := by
    rw [finalName, hparent]
  have hname := (hapart.fresh t ht p hparent u hu).symm
  rw [hfinal]
  unfold nameAfter finalName
  split
  · split
    · exact hname
    next q hq => exact fun he => hne (hapart.distinct u hu t ht q p hq hparent he)
  · exact hname

omit hapart in
theorem filedAfter_concat_of_none {info : TdiInfo} (hnone : s.parent nested t = none)
    (hfiled : s.FiledAfter nested done info) : s.FiledAfter nested (done ++ [t]) info := by
  have hsame : ∀ u, s.nameAfter nested (done ++ [t]) u = s.nameAfter nested done u := by
    intro u
    by_cases hu : u = t
    · rw [hu, nameAfter_of_none hnone, nameAfter_of_none hnone]
    · exact nameAfter_concat_of_ne hu
  intro k id
  rw [hfiled]
  simp only [hsame]

/-- The object of a nested table moves from its name to the final one. -/
theorem filedAfter_concat_of_some {info info' : TdiInfo} (ht : t ∈ s.tables) (hnew : t ∉ done)
    (hparent : s.parent nested t = some p) (hfiled : s.FiledAfter nested done info)
    (htables : ∀ k, info'.tables.get? k =
      if k = t.name then none
      else if k = s.finalName nested t then some t.id else info.tables.get? k) :
    s.FiledAfter nested (done ++ [t]) info' := by
  intro k id
  rw [htables]
  constructor
  · intro h
    split at h
    · cases h
    next hk =>
      split at h
      next hfinal =>
        cases h
        exact ⟨t, ht, nameAfter_concat_self.trans hfinal.symm, rfl⟩
      · obtain ⟨u, hu, hname, rfl⟩ := (hfiled k id).mp h
        have hne : u ≠ t := by
          rintro rfl
          exact hk (hname.symm.trans (if_neg hnew))
        exact ⟨u, hu, (nameAfter_concat_of_ne hne).trans hname, rfl⟩
  · rintro ⟨u, hu, rfl, rfl⟩
    by_cases hne : u = t
    · rw [hne, nameAfter_concat_self, if_neg, if_pos rfl]
      rw [finalName, hparent]
      exact hapart.fresh t ht p hparent t ht
    · rw [nameAfter_concat_of_ne hne, if_neg (nameAfter_ne_name hapart ht hu hne),
        if_neg (nameAfter_ne_finalName hapart ht hparent hu hne)]
      exact (hfiled _ _).mpr ⟨u, hu, rfl, rfl⟩

/-- A step leaves each object filed under the name it has by then. -/
theorem exists_filed_step {info : TdiInfo} (ht : t ∈ s.tables) (hnew : t ∉ done)
    (hnames : ∀ u ∈ s.tables, info.name u.id = s.nameAfter nested done u)
    (hfiled : s.FiledAfter nested done info) :
    ∃ info', nestTable s.tables nested info t = .ok info' ∧
      s.FiledAfter nested (done ++ [t]) info' := by
  have hname : s.nameAfter nested done t = t.name := if_neg hnew
  cases hparent : s.parent nested t with
  | none =>
    obtain ⟨info', hstep, htables, -⟩ := of_nestTable_of_none ht hparent info
    refine ⟨info', hstep, filedAfter_concat_of_none hparent fun k id => ?_⟩
    rw [htables, hfiled]
  | some p =>
    obtain ⟨-, hp, -⟩ := parent_eq_some_iff.mp hparent
    have hold : info.name t.id = t.name := (hnames t ht).trans hname
    have hfinal : info.name p.id ++ fromLastDot (info.name t.id) = s.finalName nested t := by
      rw [hold, hnames p hp, nameAfter_of_none (hapart.flat t ht p hparent), finalName, hparent]
    have hthere : t.name ∈ (info.tables.set (s.finalName nested t) t.id).keys := by
      apply Dict.mem_keys_set.mpr
      right
      exact Dict.mem_keys_iff.mpr ⟨t.id, (hfiled t.name t.id).mpr ⟨t, ht, hname, rfl⟩⟩
    have hstep := nestTable_of_some hparent info
    rw [hfinal, hold, if_pos hthere] at hstep
    refine ⟨_, hstep, filedAfter_concat_of_some hapart ht hnew hparent hfiled fun k => ?_⟩
    dsimp only
    rw [Dict.get?_erase, Dict.get?_set]

theorem exists_filed {order : List TableObj} (horder : ∀ t ∈ order, t ∈ s.tables)
    (hnodup : order.Nodup) :
    ∃ info, nestTables s.tables nested order s.info = .ok info ∧
      s.FiledAfter nested order info := by
  induction order using List.reverseRecOn with
  | nil => exact ⟨s.info, rfl, fun k id => get?_info⟩
  | append_singleton order t ih =>
    obtain ⟨horder, ht, hnew, hnodup⟩ := of_concat horder hnodup
    obtain ⟨next, hnext, hfiled⟩ := ih horder hnodup
    have hnames := name_of_nestTables hapart.flat horder hnodup hnext
    obtain ⟨info, hstep, hfiled⟩ := exists_filed_step hapart ht hnew hnames hfiled
    exact ⟨info, nestTables_concat_eq_ok_iff.mpr ⟨next, hnext, hstep⟩, hfiled⟩

/-- The end of the loop does not mention the order. -/
theorem exists_final {order : List TableObj} (hperm : order.Perm s.tables) :
    ∃ info, nestTables s.tables nested order s.info = .ok info ∧
      (∀ k id, info.tables.get? k = some id ↔
        ∃ t ∈ s.tables, s.finalName nested t = k ∧ t.id = id) ∧
      ∀ t ∈ s.tables, info.name t.id = s.finalName nested t := by
  have horder : ∀ t ∈ order, t ∈ s.tables := fun t ht => hperm.mem_iff.mp ht
  have hnodup : order.Nodup := hperm.nodup_iff.mpr (List.Nodup.of_map _ s.ids_nodup)
  have hfinal : ∀ t ∈ s.tables, s.nameAfter nested order t = s.finalName nested t :=
    fun t ht => if_pos (hperm.mem_iff.mpr ht)
  obtain ⟨info, hinfo, hfiled⟩ := exists_filed hapart horder hnodup
  refine ⟨info, hinfo, fun k id => ?_, fun t ht => ?_⟩
  · rw [hfiled]
    constructor
    · intro ⟨t, ht, hname, hid⟩
      exact ⟨t, ht, (hfinal t ht).symm.trans hname, hid⟩
    · intro ⟨t, ht, hname, hid⟩
      exact ⟨t, ht, (hfinal t ht).trans hname, hid⟩
  · rw [name_of_nestTables hapart.flat horder hnodup hinfo t ht, hfinal t ht]

theorem loopKeeps_of_apart : s.LoopKeeps nested := by
  constructor
  · intro order hperm
    obtain ⟨info, hinfo, hfiled, hname⟩ := exists_final hapart hperm
    refine ⟨info, map_some_eq_ok_iff.mpr hinfo, fun t ht k => ?_,
      fun t ht htype dep deps hdeps => ?_⟩
    · rw [hfiled, hname t ht]
      constructor
      · intro ⟨u, hu, hk, hid⟩
        rw [← hk, eq_of_id hu ht hid]
      · intro hk
        exact ⟨t, ht, hk.symm, rfl⟩
    · obtain ⟨p, hp, rfl⟩ := List.mem_map.mp (s.deps_mem t ht dep (by simp [hdeps]))
      have hparent : s.parent nested t = some p :=
        parent_eq_some_iff.mpr ⟨htype, hp, deps, hdeps⟩
      have hdot := fromLastDot_of_mem (hapart.dotted t ht p hparent)
      rw [hname t ht, hname p hp, finalName, finalName, hparent, hapart.flat t ht p hparent]
      dsimp only
      rw [hdot, String.append_assoc]
  · intro order order' hperm hperm' info info' h h'
    obtain ⟨next, hnext, hfiled, hname⟩ := exists_final hapart hperm
    obtain ⟨next', hnext', hfiled', hname'⟩ := exists_final hapart hperm'
    cases hnext.symm.trans (map_some_eq_ok_iff.mp h)
    cases hnext'.symm.trans (map_some_eq_ok_iff.mp h')
    constructor
    · funext k
      ext id
      rw [hfiled, hfiled']
    · intro t ht
      rw [hname t ht, hname' t ht]

end Sufficient

section Necessary

variable {t p u : TableObj}

theorem exists_perm_cons_cons (ht : t ∈ s.tables) (hu : u ∈ s.tables) (hne : u ≠ t) :
    ∃ rest, (t :: u :: rest).Perm s.tables := by
  have hu' : u ∈ s.tables.erase t := (List.mem_erase_of_ne hne).mpr hu
  refine ⟨(s.tables.erase t).erase u, ?_⟩
  exact ((List.perm_cons_erase hu').symm.cons t).trans (List.perm_cons_erase ht).symm

variable (hkeeps : s.LoopKeeps nested)

include hkeeps

/-- Any two tables can be the first ones the loop goes through. From then on their names stay,
and they are filed under them already. -/
theorem exists_first_two (ht : t ∈ s.tables) (hu : u ∈ s.tables) (hne : u ≠ t) :
    ∃ first second info : TdiInfo,
      nestTable s.tables nested s.info t = .ok first ∧
      nestTable s.tables nested first u = .ok second ∧
      info.name t.id = first.name t.id ∧ info.name u.id = second.name u.id ∧
      first.tables.get? (info.name t.id) = some t.id ∧
      second.tables.get? (info.name t.id) = some t.id ∧
      second.tables.get? (info.name u.id) = some u.id ∧
      ∀ v ∈ s.tables, ∀ p, s.parent nested v = some p →
        info.name v.id = info.name p.id ++ "." ++ lastComponent v.name := by
  obtain ⟨rest, hperm⟩ := exists_perm_cons_cons ht hu hne
  obtain ⟨info, hrun, hfiled, hnested⟩ := hkeeps.renamed _ hperm
  obtain ⟨first, hfirst, hrun⟩ := of_nestTables_cons (map_some_eq_ok_iff.mp hrun)
  obtain ⟨second, hsecond, hrun⟩ := of_nestTables_cons hrun
  have hnodup := (hperm.map TableObj.id).nodup_iff.mpr s.ids_nodup
  rw [List.map_cons, List.map_cons, List.nodup_cons, List.nodup_cons, List.mem_cons,
    not_or] at hnodup
  have hrest : ∀ v ∈ rest, v ∈ s.tables := fun v hv => hperm.mem_iff.mp (by simp [hv])
  obtain ⟨ht_name, ht_filed⟩ := untouched_nestTables hrest hrun hnodup.1.2
  obtain ⟨hu_name, hu_filed⟩ := untouched_nestTables hrest hrun hnodup.2.1
  obtain ⟨ht_name', ht_filed'⟩ := untouched_nestTable hu hsecond hnodup.1.1
  have hself : ∀ v ∈ s.tables, info.tables.get? (info.name v.id) = some v.id :=
    fun v hv => (hfiled v hv _).mpr rfl
  refine ⟨first, second, info, hfirst, hsecond, ht_name.trans ht_name', hu_name,
    ht_filed' _ (ht_filed _ (hself t ht)), ht_filed _ (hself t ht), hu_filed _ (hself u hu), ?_⟩
  intro v hv p hparent
  obtain ⟨htype, -, deps, hdeps⟩ := parent_eq_some_iff.mp hparent
  exact hnested v hv htype p.id deps hdeps

/-- A nested table does not depend on itself first. -/
theorem parent_ne (ht : t ∈ s.tables) (hparent : s.parent nested t = some p) : p ≠ t := by
  rintro rfl
  obtain ⟨htype, -, deps, hdeps⟩ := parent_eq_some_iff.mp hparent
  obtain ⟨info, -, -, hnested⟩ := hkeeps.renamed _ (List.Perm.refl _)
  have hlength := congrArg String.length (hnested p ht htype p.id deps hdeps)
  rw [String.length_append, String.length_append] at hlength
  have hdot : ".".length = 1 := rfl
  omega

theorem dotted_of_loopKeeps (ht : t ∈ s.tables) (hparent : s.parent nested t = some p) :
    '.' ∈ t.name.toList := by
  by_contra hdot
  obtain ⟨-, hp, -⟩ := parent_eq_some_iff.mp hparent
  obtain ⟨first, second, info, hfirst, hsecond, hp_name, ht_name, -, -, -, hnested⟩ :=
    exists_first_two hkeeps hp ht (parent_ne hkeeps ht hparent).symm
  have hid : t.id ≠ p.id := fun h => parent_ne hkeeps ht hparent (eq_of_id hp ht h.symm)
  have hstart : first.name t.id = t.name :=
    (untouched_nestTable hp hfirst hid).1.trans (name_info ht)
  obtain ⟨hname, -⟩ := of_nestTable_of_some hparent hsecond
  have hnew := hnested t ht p hparent
  rw [ht_name, hname, Function.update_self, hstart, hp_name, String.append_assoc,
    String.append_right_inj] at hnew
  have hlength := congrArg (fun n => n.toList.length) hnew
  have hshort := length_fromLastDot_of_not_mem hdot
  have hlast : (lastComponent t.name).toList = t.name.toList := by
    rw [lastComponent, String.toList_ofList, List.rtakeWhile_eq_self_iff]
    intro c hc
    simpa using fun he : c = '.' => hdot (he ▸ hc)
  rw [hshort, String.toList_append, List.length_append, hlast,
    show ".".toList.length = 1 from rfl] at hlength
  omega

/-- A nested table that is renamed before the one it depends on keeps the name that one loses. -/
theorem flat_of_loopKeeps (ht : t ∈ s.tables) (hparent : s.parent nested t = some p) :
    s.parent nested p = none := by
  obtain ⟨-, hp, -⟩ := parent_eq_some_iff.mp hparent
  have hne := parent_ne hkeeps ht hparent
  have hid : p.id ≠ t.id := fun h => hne (eq_of_id hp ht h)
  obtain ⟨first, second, info, hfirst, hsecond, ht_name, hp_name, -, -, hp_filed, hnested⟩ :=
    exists_first_two hkeeps ht hp hne
  obtain ⟨hname, -⟩ := of_nestTable_of_some hparent hfirst
  have hstart : first.name p.id = p.name :=
    (untouched_nestTable ht hfirst hid).1.trans (name_info hp)
  have hsame : info.name p.id = p.name := by
    have hnew := hnested t ht p hparent
    rw [ht_name, hname, Function.update_self, name_info ht, name_info hp,
      fromLastDot_of_mem (dotted_of_loopKeeps hkeeps ht hparent), String.append_assoc,
      String.append_left_inj] at hnew
    exact hnew.symm
  cases hgrand : s.parent nested p with
  | none => rfl
  | some q =>
    obtain ⟨-, htables⟩ := of_nestTable_of_some hgrand hsecond
    rw [hsame, htables, hstart, if_pos rfl] at hp_filed
    cases hp_filed

theorem fresh_of_loopKeeps (ht : t ∈ s.tables) (hparent : s.parent nested t = some p)
    (hu : u ∈ s.tables) : p.name ++ fromLastDot t.name ≠ u.name := by
  intro hname
  obtain ⟨-, hp, -⟩ := parent_eq_some_iff.mp hparent
  by_cases hut : u = t
  · -- the name stays, and what is filed under it is deleted
    have hne := parent_ne hkeeps ht hparent
    obtain ⟨first, second, info, hfirst, -, ht_name, -, ht_filed, -, -, -⟩ :=
      exists_first_two hkeeps ht hp hne
    obtain ⟨hnew, htables⟩ := of_nestTable_of_some hparent hfirst
    rw [ht_name, hnew, Function.update_self, name_info ht, name_info hp, hname, hut, htables,
      name_info ht, if_pos rfl] at ht_filed
    cases ht_filed
  · obtain ⟨first, second, info, hfirst, hsecond, ht_name, hu_name, -, ht_filed, hu_filed, -⟩ :=
      exists_first_two hkeeps ht hu hut
    have hid : u.id ≠ t.id := fun h => hut (eq_of_id hu ht h)
    have hstart : first.name u.id = u.name :=
      (untouched_nestTable ht hfirst hid).1.trans (name_info hu)
    obtain ⟨hnew, -⟩ := of_nestTable_of_some hparent hfirst
    rw [ht_name, hnew, Function.update_self, name_info ht, name_info hp, hname] at ht_filed
    cases hother : s.parent nested u with
    | none =>
      obtain ⟨info', hstep, -, hsame⟩ := of_nestTable_of_none hu hother first
      cases hstep.symm.trans hsecond
      rw [hu_name, hsame, hstart, ht_filed, Option.some.injEq] at hu_filed
      exact hid hu_filed.symm
    | some q =>
      obtain ⟨-, htables⟩ := of_nestTable_of_some hother hsecond
      rw [htables, hstart, if_pos rfl] at ht_filed
      cases ht_filed

theorem distinct_of_loopKeeps {q : TableObj} (ht : t ∈ s.tables) (hu : u ∈ s.tables)
    (hparent : s.parent nested t = some p) (hother : s.parent nested u = some q)
    (hname : p.name ++ fromLastDot t.name = q.name ++ fromLastDot u.name) : t = u := by
  by_contra htu
  obtain ⟨-, hp, -⟩ := parent_eq_some_iff.mp hparent
  obtain ⟨-, hq, -⟩ := parent_eq_some_iff.mp hother
  obtain ⟨first, second, info, hfirst, hsecond, ht_name, hu_name, -, ht_filed, hu_filed, -⟩ :=
    exists_first_two hkeeps ht hu (Ne.symm htu)
  have hid : u.id ≠ t.id := fun h => htu (eq_of_id ht hu h.symm)
  have hqt : q.id ≠ t.id := by
    intro h
    have hnone := flat_of_loopKeeps hkeeps hu hother
    rw [eq_of_id hq ht h, hparent] at hnone
    cases hnone
  have hu_start := (untouched_nestTable ht hfirst hid).1.trans (name_info hu)
  have hq_start := (untouched_nestTable ht hfirst hqt).1.trans (name_info hq)
  obtain ⟨ht_new, -⟩ := of_nestTable_of_some hparent hfirst
  obtain ⟨hu_new, -⟩ := of_nestTable_of_some hother hsecond
  rw [ht_name, ht_new, Function.update_self, name_info ht, name_info hp, hname] at ht_filed
  rw [hu_name, hu_new, Function.update_self, hu_start, hq_start, ht_filed,
    Option.some.injEq] at hu_filed
  exact hid hu_filed.symm

theorem apart_of_loopKeeps : s.Apart nested where
  dotted _ ht _ hparent := dotted_of_loopKeeps hkeeps ht hparent
  flat _ ht _ hparent := flat_of_loopKeeps hkeeps ht hparent
  fresh _ ht _ hparent _ hu := fresh_of_loopKeeps hkeeps ht hparent hu
  distinct _ ht _ hu _ _ hparent hother hname :=
    distinct_of_loopKeeps hkeeps ht hu hparent hother hname

end Necessary

/-- Where the driver answers, `_init_tables` loses no table exactly if the names are apart. -/
theorem keepsAll_iff {driver : TablesDriver} (hdriver : s.Answers driver) :
    s.KeepsAll driver nested ↔ s.Apart nested :=
  hdriver.keepsAll_iff_loopKeeps.trans ⟨apart_of_loopKeeps, loopKeeps_of_apart⟩

end TableSet

section Selector

/-- A table and its selector, which is nested. -/
def withSelector (name : String) (h : "pipe.ports" ≠ name) : TableSet where
  tables := [⟨1, "pipe.ports", "MATCH_DIRECT", []⟩, ⟨2, name, "SELECTOR", [1]⟩]
  ids_nodup := by simp
  names_nodup := by simpa using h
  deps_mem := by simp

def answering (s : TableSet) : TablesDriver := ⟨.success, .success, s.tables⟩

/-- A selector that gets the name `pipe.ports.sel`. -/
def renamedTables : TableSet := withSelector "pipe.sel" (by decide)

theorem renamedTables_parent : ∀ t ∈ renamedTables.tables, ∀ p,
    renamedTables.parent ["SELECTOR"] t = some p →
      t.name = "pipe.sel" ∧ p.name = "pipe.ports" ∧
        renamedTables.parent ["SELECTOR"] p = none := by
  decide

theorem renamedTables_apart : renamedTables.Apart ["SELECTOR"] := by
  refine ⟨fun t ht p hp => ?_, fun t ht p hp => (renamedTables_parent t ht p hp).2.2,
    fun t ht p hp u hu => ?_, fun t ht u hu p q hp hq _ => ?_⟩
  · rw [(renamedTables_parent t ht p hp).1]
    decide
  · obtain ⟨htname, hpname, -⟩ := renamedTables_parent t ht p hp
    rw [htname, hpname]
    revert u
    decide
  · have hsame := (renamedTables_parent t ht p hp).1
    exact TableSet.eq_of_name ht hu (hsame.trans (renamedTables_parent u hu q hq).1.symm)

theorem keepsAll_iff_renamedTables :
    (initTables (answering renamedTables) ["SELECTOR"]).map
        (fun info => info.map fun info => info.tables.entries) =
      .ok (some [("pipe.ports", 1), ("pipe.ports.sel", 2)]) ∧
    renamedTables.KeepsAll (answering renamedTables) ["SELECTOR"] :=
  ⟨by decide, (TableSet.keepsAll_iff ⟨rfl, rfl, rfl, by decide⟩).mpr renamedTables_apart⟩

/-- A selector that has that name already. -/
def selectorTables : TableSet := withSelector "pipe.ports.sel" (by decide)

/-- A nested table that has the name it is to get is lost. -/
theorem selectorTables_not_keepsAll :
    (initTables (answering selectorTables) ["SELECTOR"]).map
        (fun info => info.map fun info => info.tables.entries) =
      .ok (some [("pipe.ports", 1)]) ∧
    ¬ selectorTables.KeepsAll (answering selectorTables) ["SELECTOR"] := by
  have hrun : (initTables (answering selectorTables) ["SELECTOR"]).map
      (fun info => info.map fun info => info.tables.entries) =
        .ok (some [("pipe.ports", 1)]) := by
    decide
  refine ⟨hrun, fun hkeeps => ?_⟩
  obtain ⟨info, hinfo, hfiled, -⟩ := hkeeps.renamed _ (List.Perm.refl _)
  have hinit : initTables (answering selectorTables) ["SELECTOR"] = .ok (some info) := hinfo
  rw [hinit] at hrun
  have hentries : info.tables.entries = [("pipe.ports", 1)] := by simpa [Except.map] using hrun
  have hself := (hfiled ⟨2, "pipe.ports.sel", "SELECTOR", [1]⟩ (by decide) _).mpr rfl
  rw [Dict.get?_eq_some_iff, hentries] at hself
  simp at hself

end Selector
end Tdi.Cli.NestedTables
