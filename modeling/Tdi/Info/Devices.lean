import Tdi.Info.NameResolution
import Tdi.Foundation.FirstHolder
import Tdi.Foundation.Runs

/-!
# Devices

A device loads the programs of its configuration when it is made and keeps a map from
their names to their `TdiInfo`. The manager keeps the devices that have been added and
not removed since. Here a device object has a serial number, so that the device that is
added under an id again is another object.
-/
namespace Tdi.Info

open Std Foundation Json

abbrev DevId := UInt32

structure ProgramConfig where
  progName : String
  tdiInfoFilePaths : List String

/-- What `makeTdiInfo` returns: a null pointer where it has caught an exception. -/
abbrev InfoPtr (Table : Type) := Option (TdiInfo Table)

structure Device (Table : Type) where
  deviceId : DevId
  deviceConfig : List ProgramConfig
  tdiInfoMap : ExtTreeMap String (InfoPtr Table)

section Constructor

variable {Table : Type} (load : ProgramConfig → Option (InfoPtr Table))

/-- One round of the constructor's loop: a name that is there already is skipped. -/
def addProgram (m : ExtTreeMap String (InfoPtr Table)) (config : ProgramConfig) :
    Option (ExtTreeMap String (InfoPtr Table)) :=
  if config.progName ∈ m then some m
  else (load config).map fun info => m.insert config.progName info

/-- The constructor of a device. It is undefined where the loading of a program is. -/
def makeDevice (deviceId : DevId) (deviceConfig : List ProgramConfig) : Option (Device Table) :=
  (deviceConfig.foldlM (addProgram load) ∅).map fun m => ⟨deviceId, deviceConfig, m⟩

variable {load}

theorem getElem?_addProgram {m m' : ExtTreeMap String (InfoPtr Table)} {config : ProgramConfig}
    (h : addProgram load m config = some m') (name : String) :
    m'[name]? = m[name]?.or (if config.progName = name then load config else none) := by
  unfold addProgram at h
  split_ifs at h with hmem
  · cases h
    split_ifs with hname
    · rw [hname, ExtTreeMap.mem_iff_isSome_getElem?] at hmem
      rw [Option.or_of_isSome hmem]
    · rw [Option.or_none]
  · obtain ⟨info, hinfo, rfl⟩ := Option.map_eq_some_iff.mp h
    rw [ExtTreeMap.getElem?_insert]
    by_cases hname : config.progName = name
    · have hnone : m[name]? = none := by
        rw [← hname]
        exact ExtTreeMap.getElem?_eq_none hmem
      simp [hname, hnone, hinfo]
    · simp [hname]

/-- A program is known by the first configuration that has its name. -/
theorem getElem?_foldlM_addProgram {configs : List ProgramConfig}
    {m m' : ExtTreeMap String (InfoPtr Table)}
    (h : configs.foldlM (addProgram load) m = some m') (name : String) :
    m'[name]? = m[name]?.or ((configs.find? fun c => c.progName = name).bind load) := by
  induction configs generalizing m with
  | nil =>
    cases h
    simp
  | cons config configs ih =>
    rw [List.foldlM_cons] at h
    obtain ⟨next, hnext, hrest⟩ := Option.bind_eq_some_iff.mp h
    rw [ih hrest, getElem?_addProgram hnext, List.find?_cons]
    by_cases hname : config.progName = name
    · cases hload : load config with
      | none =>
        -- the round has stored the program, or another one has its name
        unfold addProgram at hnext
        split_ifs at hnext with hmem
        · rw [hname, ExtTreeMap.mem_iff_isSome_getElem?] at hmem
          simp [hname, hload, Option.or_of_isSome hmem]
        · rw [hload] at hnext
          cases hnext
      | some info => simp [hname, hload]
    · simp [hname]

/-- The program that a configuration has under a name. -/
def programOf (load : ProgramConfig → Option (InfoPtr Table)) (config : List ProgramConfig)
    (name : String) : Option (InfoPtr Table) :=
  (config.find? fun c => c.progName = name).bind load

theorem getElem?_tdiInfoMap {devId : DevId} {config : List ProgramConfig} {device : Device Table}
    (h : makeDevice load devId config = some device) (name : String) :
    device.tdiInfoMap[name]? = programOf load config name := by
  obtain ⟨m, hm, rfl⟩ := Option.map_eq_some_iff.mp h
  have hget := getElem?_foldlM_addProgram hm name
  rwa [ExtTreeMap.getElem?_empty, Option.none_or] at hget

end Constructor

namespace Device

variable {Table : Type} (device : Device Table)

def tdiInfoGet (progName : String) : Except TdiStatus (InfoPtr Table) :=
  match device.tdiInfoMap[progName]? with
  | none => .error .objectNotFound
  | some info => .ok info

/-- The names are appended to the vector of the caller. -/
def p4NamesGet (p4Names : List String) : TdiStatus × List String :=
  (.success, p4Names ++ device.tdiInfoMap.keys)

end Device

/-- A device that has been made, with the number of those made before. -/
structure DeviceObject (Table : Type) where
  serial : ℕ
  device : Device Table

structure DevMgr (Table : Type) where
  devMap : ExtTreeMap DevId (DeviceObject Table)
  built : ℕ
  serial_lt : ∀ (id : DevId) (object : DeviceObject Table),
    devMap[id]? = some object → object.serial < built

namespace DevMgr

variable {Table : Type}

theorem serial_lt_empty (id : DevId) (object : DeviceObject Table)
    (h : (∅ : ExtTreeMap DevId (DeviceObject Table))[id]? = some object) : object.serial < 0 := by
  rw [ExtTreeMap.getElem?_empty] at h
  cases h

def empty : DevMgr Table := ⟨∅, 0, serial_lt_empty⟩

variable (s : DevMgr Table)

theorem serial_lt_insert (id : DevId) (device : Device Table) (id' : DevId)
    (object : DeviceObject Table)
    (h : (s.devMap.insert id ⟨s.built, device⟩)[id']? = some object) :
    object.serial < s.built + 1 := by
  rw [ExtTreeMap.getElem?_insert] at h
  split_ifs at h
  · cases h
    exact Nat.lt_succ_self s.built
  · exact (s.serial_lt id' object h).trans (Nat.lt_succ_self s.built)

theorem serial_lt_erase (id id' : DevId) (object : DeviceObject Table)
    (h : (s.devMap.erase id)[id']? = some object) : object.serial < s.built := by
  rw [ExtTreeMap.getElem?_erase] at h
  split_ifs at h
  exact s.serial_lt id' object h

variable (load : ProgramConfig → Option (InfoPtr Table))

/-- `deviceAdd`: nothing is made for an id that is there. -/
def deviceAdd (deviceId : DevId) (deviceConfig : List ProgramConfig) :
    Option (TdiStatus × DevMgr Table) :=
  if deviceId ∈ s.devMap then some (.alreadyExists, s)
  else (makeDevice load deviceId deviceConfig).map fun device =>
    (.success, ⟨s.devMap.insert deviceId ⟨s.built, device⟩, s.built + 1,
      s.serial_lt_insert deviceId device⟩)

def deviceRemove (deviceId : DevId) : TdiStatus × DevMgr Table :=
  (.success, if deviceId ∈ s.devMap then
    ⟨s.devMap.erase deviceId, s.built, s.serial_lt_erase deviceId⟩ else s)

def deviceGet (devId : DevId) : Except TdiStatus (DeviceObject Table) :=
  match s.devMap[devId]? with
  | none => .error .objectNotFound
  | some object => .ok object

/-- The loop that inserts the ids in the set of the caller. -/
def deviceIdListGet (deviceIdList : ExtTreeSet DevId) : TdiStatus × ExtTreeSet DevId :=
  (.success, s.devMap.toList.foldl
    (fun ids pair => if pair.1 ∈ ids then ids else ids.insert pair.1) deviceIdList)

end DevMgr

inductive DevOp where
  | deviceAdd (deviceId : DevId) (deviceConfig : List ProgramConfig)
  | deviceRemove (deviceId : DevId)

section Runs

variable {Table : Type} (load : ProgramConfig → Option (InfoPtr Table))

def DevMgr.step (s : DevMgr Table) : DevOp → Option (DevMgr Table)
  | .deviceAdd id config => (s.deviceAdd load id config).map Prod.snd
  | .deviceRemove id => some (s.deviceRemove id).2

/-- The configuration that an operation puts under an id. -/
def adds (id : DevId) : DevOp → Option (List ProgramConfig)
  | .deviceAdd id' config => if id' = id then some config else none
  | .deviceRemove _ => none

def removes (id : DevId) : DevOp → Bool
  | .deviceAdd _ _ => false
  | .deviceRemove id' => id' = id

/-- The configuration of the device under an id: that with which it was added when there was
none, until it is removed. -/
def configOf (ops : List DevOp) (id : DevId) : Option (List ProgramConfig) :=
  holding (adds id) (removes id) ops

variable {load} {s s' : DevMgr Table}

theorem getElem?_deviceRemove (s : DevMgr Table) (id id' : DevId) :
    (s.deviceRemove id).2.devMap[id']? = if id = id' then none else s.devMap[id']? := by
  unfold DevMgr.deviceRemove
  by_cases hmem : id ∈ s.devMap
  · rw [if_pos hmem]
    change (s.devMap.erase id)[id']? = _
    rw [ExtTreeMap.getElem?_erase]
    simp only [LawfulEqCmp.compare_eq_iff_eq]
  · rw [if_neg hmem]
    split_ifs with hid
    · rw [← hid]
      exact ExtTreeMap.getElem?_eq_none hmem
    · rfl

/-- What an operation does to the device under an id. -/
theorem getElem?_step {op : DevOp} (h : s.step load op = some s') (id : DevId) :
    s'.devMap[id]? = (if removes id op then none else s.devMap[id]?.or
      ((adds id op).bind fun config => (makeDevice load id config).map fun device =>
        ⟨s.built, device⟩)) ∧
    s.built ≤ s'.built := by
  cases op with
  | deviceRemove id' =>
    cases h
    rw [getElem?_deviceRemove]
    refine ⟨by simp [removes, adds], ?_⟩
    unfold DevMgr.deviceRemove
    split_ifs <;> exact le_rfl
  | deviceAdd id' config =>
    obtain ⟨result, hadd, rfl⟩ := Option.map_eq_some_iff.mp h
    unfold DevMgr.deviceAdd at hadd
    split_ifs at hadd with hmem
    · cases hadd
      refine ⟨?_, le_rfl⟩
      by_cases hid : id' = id
      · rw [hid, ExtTreeMap.mem_iff_isSome_getElem?] at hmem
        simp [removes, Option.or_of_isSome hmem]
      · simp [removes, adds, hid]
    · obtain ⟨device, hdevice, rfl⟩ := Option.map_eq_some_iff.mp hadd
      refine ⟨?_, Nat.le_succ _⟩
      rw [ExtTreeMap.getElem?_insert]
      by_cases hid : id' = id
      · have hnone : s.devMap[id]? = none := by
          rw [← hid]
          exact ExtTreeMap.getElem?_eq_none hmem
        rw [hid] at hdevice
        simp [hid, removes, adds, hnone, hdevice]
      · simp [hid, removes, adds]

/-- A device that is put under a free id has been made. -/
theorem made_of_step {op : DevOp} {id : DevId} {config : List ProgramConfig}
    (h : s.step load op = some s') (hadds : adds id op = some config)
    (hfree : s.devMap[id]? = none) : ∃ device, makeDevice load id config = some device := by
  cases op with
  | deviceRemove => cases hadds
  | deviceAdd id' config' =>
    simp only [adds, Option.ite_none_right_eq_some, Option.some.injEq] at hadds
    obtain ⟨rfl, rfl⟩ := hadds
    have hmem : id' ∉ s.devMap := by
      rw [ExtTreeMap.mem_iff_isSome_getElem?, hfree]
      nofun
    have hadd : s.step load (.deviceAdd id' config') =
        (s.deviceAdd load id' config').map Prod.snd := rfl
    rw [hadd, DevMgr.deviceAdd, if_neg hmem, Option.map_map, Option.map_eq_some_iff] at h
    obtain ⟨device, hdevice, -⟩ := h
    exact ⟨device, hdevice⟩

/-- The device under an id is one that the constructor makes of the configuration that counts. -/
theorem getElem?_of_exec {ops : List DevOp} (h : exec (DevMgr.step load) .empty ops = some s)
    (id : DevId) :
    s.devMap[id]?.map (fun object => some object.device) =
      (configOf ops id).map (makeDevice load id) := by
  induction ops using List.reverseRecOn generalizing s with
  | nil =>
    cases h
    simp [DevMgr.empty, configOf, holding]
  | append_singleton ops op ih =>
    obtain ⟨t, ht, hstep⟩ := exec_concat_eq_some_iff.mp h
    have hbefore := ih ht
    rw [(getElem?_step hstep id).1, configOf, holding_concat, holdStep]
    rw [configOf] at hbefore
    split_ifs with hremoves
    · rfl
    · cases hheld : holding (adds id) (removes id) ops with
      | some config =>
        rw [hheld] at hbefore
        obtain ⟨object, hobject, hdevice⟩ := Option.map_eq_some_iff.mp hbefore
        rw [hobject, Option.some_or, Option.some_or, Option.map_some, Option.map_some, hdevice]
      | none =>
        rw [hheld, Option.map_none, Option.map_eq_none_iff] at hbefore
        rw [hbefore, Option.none_or, Option.none_or]
        cases hadds : adds id op with
        | none => rfl
        | some config =>
          obtain ⟨device, hdevice⟩ := made_of_step hstep hadds hbefore
          simp [hdevice]

/-- A configuration counts that was added when there was no device, if the device has not been
removed since. -/
theorem configOf_eq_some_iff {ops : List DevOp} {id : DevId} {config : List ProgramConfig} :
    configOf ops id = some config ↔
      ∃ pre post, ops = pre ++ .deviceAdd id config :: post ∧ configOf pre id = none ∧
        .deviceRemove id ∉ post := by
  have hremoves : ∀ op, removes id op = false ↔ op ≠ .deviceRemove id := by
    intro op
    cases op <;> simp [removes]
  have hadds : ∀ op, adds id op = some config ↔ op = .deviceAdd id config := by
    intro op
    cases op <;> simp [adds]
  rw [configOf, holding_eq_some_iff]
  constructor
  · rintro ⟨pre, op, post, hops, hfree, hputs, hkept⟩
    rw [List.forall_mem_cons] at hkept
    rw [(hadds op).mp hputs] at hops
    exact ⟨pre, post, hops, hfree, fun hmem => (hremoves _).mp (hkept.2 _ hmem) rfl⟩
  · rintro ⟨pre, post, hops, hfree, hkept⟩
    refine ⟨pre, _, post, hops, hfree, (hadds _).mpr rfl, ?_⟩
    rw [List.forall_mem_cons]
    exact ⟨rfl, fun op hop => (hremoves op).mpr fun he => hkept (he ▸ hop)⟩

theorem built_le_of_exec {ops : List DevOp} (h : exec (DevMgr.step load) s ops = some s') :
    s.built ≤ s'.built := by
  induction ops using List.reverseRecOn generalizing s' with
  | nil =>
    cases h
    exact le_rfl
  | append_singleton ops op ih =>
    obtain ⟨t, ht, hstep⟩ := exec_concat_eq_some_iff.mp h
    exact (ih ht).trans (getElem?_step hstep 0).2

/-- An object that is not under its id any more does not come back there. -/
theorem not_under_of_exec {ops : List DevOp} (h : exec (DevMgr.step load) s ops = some s')
    {id : DevId} {object : DeviceObject Table} (hold : object.serial < s.built)
    (hgone : s.devMap[id]? ≠ some object) : s'.devMap[id]? ≠ some object := by
  induction ops using List.reverseRecOn generalizing s' with
  | nil =>
    cases h
    exact hgone
  | append_singleton ops op ih =>
    obtain ⟨t, ht, hstep⟩ := exec_concat_eq_some_iff.mp h
    have hbuilt := built_le_of_exec ht
    rw [(getElem?_step hstep id).1]
    split_ifs with hremoves
    · nofun
    · rw [ne_eq, Option.or_eq_some_iff]
      rintro (hstay | ⟨-, hnew⟩)
      · exact ih ht hstay
      · obtain ⟨config, -, hmade⟩ := Option.bind_eq_some_iff.mp hnew
        obtain ⟨device, -, rfl⟩ := Option.map_eq_some_iff.mp hmade
        exact absurd hold (Nat.not_lt.mpr hbuilt)

/-- The object that was under an id is still there exactly while the id has not been removed. A
device that is added under the id again is another object. -/
theorem object_kept_iff {ops : List DevOp} (h : exec (DevMgr.step load) s ops = some s')
    {id : DevId} {object : DeviceObject Table} (hget : s.deviceGet id = .ok object) :
    s'.deviceGet id = .ok object ↔ .deviceRemove id ∉ ops := by
  have hiff : ∀ t : DevMgr Table, t.deviceGet id = .ok object ↔ t.devMap[id]? = some object := by
    intro t
    unfold DevMgr.deviceGet
    cases t.devMap[id]? <;> simp
  rw [hiff] at hget ⊢
  have hserial := s.serial_lt id object hget
  induction ops using List.reverseRecOn generalizing s' with
  | nil =>
    cases h
    exact iff_of_true hget List.not_mem_nil
  | append_singleton ops op ih =>
    obtain ⟨t, ht, hstep⟩ := exec_concat_eq_some_iff.mp h
    have hbefore := ih ht
    rw [List.mem_append, List.mem_singleton, not_or]
    constructor
    · intro hnow
      constructor
      · refine hbefore.mp ?_
        by_contra hgone
        have hlast : exec (DevMgr.step load) t [op] = some s' :=
          (exec_singleton t op).trans hstep
        exact not_under_of_exec hlast (hserial.trans_le (built_le_of_exec ht)) hgone hnow
      · rintro rfl
        rw [(getElem?_step hstep id).1] at hnow
        simp [removes] at hnow
    · rintro ⟨hops, hne⟩
      have hremoves : removes id op ≠ true := by
        cases op with
        | deviceAdd => nofun
        | deviceRemove id' =>
          intro hid
          exact hne (by rw [of_decide_eq_true hid])
      rw [(getElem?_step hstep id).1, if_neg hremoves, hbefore.mpr hops, Option.some_or]

end Runs

/-- A program is loaded from its files, and these tables are found in them. -/
def loadForward (config : ProgramConfig) : Option (InfoPtr TableInfo) :=
  if config.tdiInfoFilePaths = [] then none else some (some forwardTables)

def dummyConfig : List ProgramConfig := [⟨"dummy_tna", ["tdi.json"]⟩]

def dummyDevMgr : DevMgr TableInfo :=
  (exec (DevMgr.step loadForward) .empty [.deviceAdd 0 dummyConfig]).getD .empty

theorem exec_dummyDevMgr :
    exec (DevMgr.step loadForward) .empty [.deviceAdd 0 dummyConfig] = some dummyDevMgr := rfl

/-- The device that is added again is another one. -/
theorem object_kept_iff_dummyDevMgr : ∃ object s', dummyDevMgr.deviceGet 0 = .ok object ∧
    exec (DevMgr.step loadForward) dummyDevMgr [.deviceRemove 0, .deviceAdd 0 dummyConfig] =
      some s' ∧ s'.deviceGet 0 ≠ .ok object := by
  have hget : dummyDevMgr.deviceGet 0 = .ok _ := rfl
  have hrun : exec (DevMgr.step loadForward) dummyDevMgr
      [.deviceRemove 0, .deviceAdd 0 dummyConfig] = some _ := rfl
  exact ⟨_, _, hget, hrun, fun hkept => (object_kept_iff hrun hget).mp hkept List.mem_cons_self⟩

end Tdi.Info
