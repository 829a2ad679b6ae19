import Tdi.Info.Devices
import Tdi.Foundation.Buffers

/-!
# Devices in the C API

The functions of `tdi_init_c.cpp` that look up a device or a program, and those that
list the ids of the devices and the names of the programs of one. A listing is two
calls: the first tells how long the array has to be that the second fills.
-/
namespace Tdi.CFrontend

open Std Foundation Info

variable {Table : Type} (s : DevMgr Table)

section Lookups

/-- The handle is written whether the device is found or not. -/
def tdiDeviceGet (devId : DevId) : TdiStatus × Option (DeviceObject Table) :=
  match s.deviceGet devId with
  | .ok object => (.success, some object)
  | .error status => (status, none)

/-- The memory of the caller is written only in the end. -/
def tdiInfoGet (devId : DevId) (progName : String) (old : InfoPtr Table) :
    TdiStatus × InfoPtr Table :=
  match s.deviceGet devId with
  | .error status => (status, old)
  | .ok object =>
    match object.device.tdiInfoGet progName with
    | .error status => (status, old)
    | .ok info => (.success, info)

end Lookups

section Listings

/-- `device_id_list.size()`, as a `uint32_t` -/
def tdiNumDeviceIdListGet : TdiStatus × UInt32 :=
  ((s.deviceIdListGet ∅).1, UInt32.ofNat (s.deviceIdListGet ∅).2.size)

def tdiDeviceIdListGet (deviceIdListOut : ℕ → DevId) : TdiStatus × (ℕ → DevId) :=
  (.success, fillFrom 0 (s.deviceIdListGet ∅).2.toList deviceIdListOut)

/-- `static_cast<int>(p4_names.size())` -/
def tdiNumP4NamesGet (devId : DevId) (old : Int) : TdiStatus × Int :=
  match s.deviceGet devId with
  | .error status => (status, old)
  | .ok object =>
    ((object.device.p4NamesGet []).1, ((object.device.p4NamesGet []).2.length : Int).bmod (2 ^ 32))

def tdiP4NamesGet (devId : DevId) (progNames : ℕ → Option String) :
    TdiStatus × (ℕ → Option String) :=
  match s.deviceGet devId with
  | .error status => (status, progNames)
  | .ok object =>
    ((object.device.p4NamesGet []).1,
      fillFrom 0 ((object.device.p4NamesGet []).2.map some) progNames)

end Listings

section Run

theorem mem_deviceIdListGet_iff (id : DevId) :
    id ∈ (s.deviceIdListGet ∅).2 ↔ id ∈ s.devMap := by
  have hloop : ∀ (l : List (DevId × DeviceObject Table)) (ids : ExtTreeSet DevId),
      id ∈ l.foldl (fun ids pair => if pair.1 ∈ ids then ids else ids.insert pair.1) ids ↔
        id ∈ ids ∨ id ∈ l.map Prod.fst := by
    intro l
    induction l with
    | nil => simp
    | cons pair l ih =>
      intro ids
      rw [List.foldl_cons, ih]
      split_ifs with hpair
      · have hsame : id ∈ ids ∨ id = pair.1 ↔ id ∈ ids :=
          or_iff_left_of_imp fun he => he ▸ hpair
        rw [List.map_cons, List.mem_cons, ← or_assoc, hsame]
      · simp only [ExtTreeSet.mem_insert, LawfulEqCmp.compare_eq_iff_eq, List.map_cons,
          List.mem_cons, eq_comm (a := id)]
        tauto
  have hkeys : s.devMap.toList.map Prod.fst = s.devMap.keys := ExtTreeMap.map_fst_toList_eq_keys
  rw [DevMgr.deviceIdListGet, hloop, hkeys, ExtTreeMap.mem_keys]
  simp

theorem pairwise_deviceIdListGet : (s.deviceIdListGet ∅).2.toList.Pairwise (· < ·) :=
  ExtTreeSet.ordered_toList.imp fun h => Std.compare_eq_lt.mp h

variable {load : ProgramConfig → Option (InfoPtr Table)} {s}

theorem mem_devMap_iff {ops : List DevOp} (h : exec (DevMgr.step load) .empty ops = some s)
    (id : DevId) : id ∈ s.devMap ↔ (configOf ops id).isSome = true := by
  have hmap := congrArg Option.isSome (getElem?_of_exec h id)
  rw [Option.isSome_map, Option.isSome_map] at hmap
  rw [ExtTreeMap.mem_iff_isSome_getElem?, hmap]

/-- A program is found exactly when the device that counts has a configuration with its name, and
it is what the first of these has loaded. -/
theorem tdiInfoGet_eq_success_iff {ops : List DevOp}
    (h : exec (DevMgr.step load) .empty ops = some s) (devId : DevId) (progName : String)
    (old info : InfoPtr Table) :
    tdiInfoGet s devId progName old = (.success, info) ↔
      ∃ pre configs post config, ops = pre ++ .deviceAdd devId configs :: post ∧
        configOf pre devId = none ∧ .deviceRemove devId ∉ post ∧
        configs.find? (fun c => c.progName = progName) = some config ∧
        load config = some info := by
  have hdevices := getElem?_of_exec h devId
  have hgiven : (∃ configs, configOf ops devId = some configs ∧
      (configs.find? fun c => c.progName = progName).bind load = some info) ↔
      ∃ pre configs post config, ops = pre ++ .deviceAdd devId configs :: post ∧
        configOf pre devId = none ∧ .deviceRemove devId ∉ post ∧
        configs.find? (fun c => c.progName = progName) = some config ∧
        load config = some info := by
    simp only [configOf_eq_some_iff, Option.bind_eq_some_iff]
    constructor
    · rintro ⟨configs, ⟨pre, post, hops⟩, config, hconfig⟩
      exact ⟨pre, configs, post, config, hops.1, hops.2.1, hops.2.2, hconfig⟩
    · rintro ⟨pre, configs, post, config, hops, hfree, hkept, hconfig⟩
      exact ⟨configs, ⟨pre, post, hops, hfree, hkept⟩, config, hconfig⟩
  rw [← hgiven, tdiInfoGet, DevMgr.deviceGet]
  cases hconfig : configOf ops devId with
  | none =>
    rw [hconfig, Option.map_none, Option.map_eq_none_iff] at hdevices
    simp [hdevices]
  | some configs =>
    rw [hconfig, Option.map_some] at hdevices
    obtain ⟨object, hobject, hdevice⟩ := Option.map_eq_some_iff.mp hdevices
    have hprogram := getElem?_tdiInfoMap hdevice.symm progName
    rw [programOf] at hprogram
    simp only [hobject, Device.tdiInfoGet, hprogram, Option.some.injEq, exists_eq_left']
    cases (configs.find? fun c => c.progName = progName).bind load <;> simp

theorem tdiInfoGet_dummy_tna :
    tdiInfoGet dummyDevMgr 0 "dummy_tna" none = (.success, some forwardTables) := by
  apply (tdiInfoGet_eq_success_iff exec_dummyDevMgr 0 "dummy_tna" none (some forwardTables)).mpr
  exact ⟨[], dummyConfig, [], ⟨"dummy_tna", ["tdi.json"]⟩, rfl, rfl, List.not_mem_nil, rfl, rfl⟩

/-- After every run of additions and removals the ids of the devices are listed in ascending
order, each once, in an array of the length that is told before. Nothing is written behind it. -/
theorem device_ids_listed {ops : List DevOp} (h : exec (DevMgr.step load) .empty ops = some s) :
    ∃ ids : List DevId, ids.Pairwise (· < ·) ∧
      (∀ id, id ∈ ids ↔ (configOf ops id).isSome = true) ∧
      tdiNumDeviceIdListGet s = (.success, UInt32.ofNat ids.length) ∧
      ∀ out, readArray ids.length (tdiDeviceIdListGet s out).2 = ids ∧
        ∀ j, ids.length ≤ j → (tdiDeviceIdListGet s out).2 j = out j := by
  refine ⟨(s.deviceIdListGet ∅).2.toList, pairwise_deviceIdListGet s, ?_, ?_, ?_⟩
  · intro id
    rw [ExtTreeSet.mem_toList, mem_deviceIdListGet_iff, mem_devMap_iff h]
  · rw [ExtTreeSet.length_toList]
    rfl
  · intro out
    exact ⟨readArray_fillFrom _ out, fun j hj => fillFrom_of_length_le hj out⟩

theorem device_ids_listed_dummyDevMgr :
    ∃ ids : List DevId, (∀ id, id ∈ ids ↔ (configOf [.deviceAdd 0 dummyConfig] id).isSome = true) ∧
      tdiNumDeviceIdListGet dummyDevMgr = (.success, UInt32.ofNat ids.length) ∧
      ∀ out, readArray ids.length (tdiDeviceIdListGet dummyDevMgr out).2 = ids := by
  obtain ⟨ids, -, hmem, hnum, hlist⟩ := device_ids_listed exec_dummyDevMgr
  exact ⟨ids, hmem, hnum, fun out => (hlist out).1⟩

end Run
end Tdi.CFrontend
