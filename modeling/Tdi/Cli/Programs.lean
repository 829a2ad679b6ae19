import Tdi.CFrontend.Devices
import Tdi.Cli.Reread
import Tdi.Foundation.Dict

/-!
# The programs of a device

`_init_programs` asks the C API for the names of the programs of a device and makes an
object of the class `TdiInfo` for each. The statuses are not looked at. Where there is
no device the number of names stays `-1`, and there is no array type of that length.
-/
namespace Tdi.Cli.Programs

open Std Foundation Info CFrontend

inductive Raised where
  /-- Array length must be >= 0 -/
  | valueError
  | unicodeDecodeError (name : String)
  /-- `None` has no `decode`. -/
  | attributeError
  /-- `__init__() should return None, not 'int'` -/
  | typeError (name : String)

section Interface

-- `initTables` is what the rest of the constructor of `TdiInfo` makes of the handle: nothing if it
-- fails
variable {Table Obj : Type} (s : DevMgr Table) (devId : DevId)
  (initTables : InfoPtr Table → Option Obj)

/-- `TdiInfo(self, name)`, of which `_init_handle` is the first part. -/
def tdiInfo (name : String) : Except Raised Obj :=
  match tdiInfoGet s devId name none with
  | (.success, handle) => (initTables handle).elim (.error (.typeError name)) .ok
  | _ => .error (.typeError name)

/-- `c_str()`, as it is read again -/
def cStr (name : String) : String := String.ofList (name.toList.takeWhile (· ≠ '\x00'))

/-- `name.decode('ascii')` -/
def decodeAscii (name : String) : Except Raised Unit :=
  if IsAscii name then .ok () else .error (.unicodeDecodeError name)

/-- One round of the loop over the names. -/
def addInfo (infos : Dict Obj) (name : Option String) : Except Raised (Dict Obj) :=
  match name.map cStr with
  | none => .error .attributeError
  | some name => do
    decodeAscii name
    let info ← tdiInfo s devId initTables name
    .ok (infos.set name info)

/-- `_init_programs`: the dictionary `infos`. -/
def initPrograms : Except Raised (Dict Obj) :=
  let numNames := (tdiNumP4NamesGet s devId (-1)).2
  if numNames < 0 then .error .valueError
  else
    (readArray numNames.toNat (tdiP4NamesGet s devId fun _ => none).2).foldlM
      (addInfo s devId initTables) .empty

end Interface
section Loop

variable {Table Obj : Type} {s : DevMgr Table} {devId : DevId}
  {initTables : InfoPtr Table → Option Obj}

/-- A name that Python reads as it is. -/
structure Plain (name : String) : Prop where
  ascii : IsAscii name
  no_nul : '\x00' ∉ name.toList

theorem cStr_of_plain {name : String} (h : Plain name) : cStr name = name := by
  have htake : name.toList.takeWhile (fun c => decide (c ≠ '\x00')) = name.toList := by
    rw [List.takeWhile_eq_self_iff]
    intro c hc
    exact decide_eq_true fun he => h.no_nul (he ▸ hc)
  rw [cStr, htake, String.ofList_toList]

theorem addInfo_of_plain {infos : Dict Obj} {name : String} {info : Obj} (hname : Plain name)
    (hinfo : tdiInfo s devId initTables name = .ok info) :
    addInfo s devId initTables infos (some name) = .ok (infos.set name info) := by
  rw [addInfo, Option.map_some, cStr_of_plain hname]
  simp only [decodeAscii, if_pos hname.ascii, hinfo]
  rfl

/-- The loop files each program under its name. -/
theorem foldlM_addInfo {names : List String} (infos : Dict Obj) (hplain : ∀ n ∈ names, Plain n)
    (hinfo : ∀ n ∈ names, ∃ info, tdiInfo s devId initTables n = .ok info) :
    ∃ infos', (names.map some).foldlM (addInfo s devId initTables) infos = .ok infos' ∧
      ∀ k, infos'.get? k =
        if k ∈ names then (tdiInfo s devId initTables k).toOption else infos.get? k := by
  induction names generalizing infos with
  | nil => exact ⟨infos, rfl, by simp⟩
  | cons name names ih =>
    rw [List.forall_mem_cons] at hplain hinfo
    obtain ⟨info, hname⟩ := hinfo.1
    obtain ⟨infos', hloop, hget⟩ := ih (infos.set name info) hplain.2 hinfo.2
    refine ⟨infos', ?_, fun k => ?_⟩
    · rw [List.map_cons, foldlM_cons_eq_ok_iff]
      exact ⟨_, addInfo_of_plain hplain.1 hname, hloop⟩
    · rw [hget, Dict.get?_set]
      by_cases hk : k = name
      · by_cases hmem : k ∈ names <;> simp [hk, hname, Except.toOption]
      · simp [hk]

end Loop

section Devices

variable {Table Obj : Type} {s : DevMgr Table} {load : ProgramConfig → Option (InfoPtr Table)}
  (initTables : InfoPtr Table → Option Obj)

theorem mem_keys_iff {devId : DevId} {config : List ProgramConfig} {device : Device Table}
    (h : makeDevice load devId config = some device) (name : String) :
    name ∈ device.tdiInfoMap.keys ↔ ∃ info, programOf load config name = some info := by
  rw [ExtTreeMap.mem_keys, ExtTreeMap.mem_iff_isSome_getElem?, getElem?_tdiInfoMap h,
    Option.isSome_iff_exists]

theorem mem_map_progName {config : List ProgramConfig} {name : String} {info : InfoPtr Table}
    (h : programOf load config name = some info) : ∃ c ∈ config, c.progName = name := by
  obtain ⟨c, hc, -⟩ := Option.bind_eq_some_iff.mp h
  exact ⟨c, List.mem_of_find?_eq_some hc, by simpa using List.find?_some hc⟩

/-- There are not more programs than configurations. -/
theorem length_keys_le {devId : DevId} {config : List ProgramConfig} {device : Device Table}
    (h : makeDevice load devId config = some device) :
    device.tdiInfoMap.keys.length ≤ config.length := by
  have hsub : device.tdiInfoMap.keys ⊆ config.map ProgramConfig.progName := by
    intro name hname
    obtain ⟨info, hinfo⟩ := (mem_keys_iff h name).mp hname
    exact List.mem_map.mpr (mem_map_progName hinfo)
  have hlen := (List.subperm_of_subset ExtTreeMap.nodup_keys hsub).length_le
  rwa [List.length_map] at hlen

section Reads

variable {devId : DevId} {object : DeviceObject Table} {config : List ProgramConfig}

theorem deviceGet_of_getElem? (h : s.devMap[devId]? = some object) :
    s.deviceGet devId = .ok object := by
  rw [DevMgr.deviceGet, h]

/-- The number of the names is that of the programs, and the array holds their names. -/
theorem names_read (hget : s.deviceGet devId = .ok object)
    (hlen : object.device.tdiInfoMap.keys.length < 2 ^ 31) :
    (tdiNumP4NamesGet s devId (-1)).2 = object.device.tdiInfoMap.keys.length ∧
      readArray object.device.tdiInfoMap.keys.length (tdiP4NamesGet s devId fun _ => none).2 =
        object.device.tdiInfoMap.keys.map some := by
  have hnames : (object.device.p4NamesGet []).2 = object.device.tdiInfoMap.keys := rfl
  constructor
  · rw [tdiNumP4NamesGet, hget]
    simp only [hnames]
    apply Int.bmod_eq_of_le <;> omega
  · rw [tdiP4NamesGet, hget]
    simp only [hnames]
    conv_lhs => rw [← List.length_map some]
    exact readArray_fillFrom _ _

theorem eq_ok_of_toOption {ε α : Type} {x : Except ε α} {a : α} (h : x.toOption = some a) :
    x = .ok a := by
  cases x with
  | error => cases h
  | ok => exact congrArg Except.ok (Option.some.inj h)

theorem initPrograms_eq (hget : s.deviceGet devId = .ok object)
    (hlen : object.device.tdiInfoMap.keys.length < 2 ^ 31) :
    initPrograms s devId initTables =
      (object.device.tdiInfoMap.keys.map some).foldlM (addInfo s devId initTables) .empty := by
  obtain ⟨hnum, hnames⟩ := names_read hget hlen
  have hnonneg : ¬ (object.device.tdiInfoMap.keys.length : Int) < 0 := Int.not_lt.mpr (by omega)
  rw [initPrograms, hnum]
  simp only [if_neg hnonneg, Int.toNat_natCast, hnames]

theorem tdiInfo_toOption (hget : s.deviceGet devId = .ok object)
    (hdevice : makeDevice load devId config = some object.device) (name : String) :
    (tdiInfo s devId initTables name).toOption = (programOf load config name).bind initTables := by
  rw [tdiInfo, tdiInfoGet, hget]
  simp only [Device.tdiInfoGet, getElem?_tdiInfoMap hdevice]
  cases programOf load config name with
  | none => rfl
  | some handle => cases hinit : initTables handle <;> simp [hinit, Except.toOption]

end Reads

/-- The object of a program is made of what the first configuration with its name has loaded, and
without a device there is no list of programs. -/
theorem infos_of_device {ops : List DevOp} (h : exec (DevMgr.step load) .empty ops = some s)
    (devId : DevId) :
    (configOf ops devId = none → initPrograms s devId initTables = .error .valueError) ∧
    ∀ config, configOf ops devId = some config → config.length < 2 ^ 31 →
      (∀ c ∈ config, Plain c.progName) →
      (∀ name info, programOf load config name = some info → (initTables info).isSome = true) →
      ∃ infos, initPrograms s devId initTables = .ok infos ∧
        ∀ name, infos.get? name = (programOf load config name).bind initTables := by
  have hdevices := getElem?_of_exec h devId
  constructor
  · intro hnone
    rw [hnone, Option.map_none, Option.map_eq_none_iff] at hdevices
    have hget : s.deviceGet devId = .error .objectNotFound := by
      rw [DevMgr.deviceGet, hdevices]
    rw [initPrograms, tdiNumP4NamesGet, hget]
    rfl
  · intro config hconfig hlen hplain hinit
    rw [hconfig, Option.map_some] at hdevices
    obtain ⟨object, hobject, hdevice⟩ := Option.map_eq_some_iff.mp hdevices
    have hget := deviceGet_of_getElem? hobject
    have hkeys := mem_keys_iff hdevice.symm
    have hinfo := tdiInfo_toOption initTables hget hdevice.symm
    have hnames : ∀ name ∈ object.device.tdiInfoMap.keys, Plain name := by
      intro name hname
      obtain ⟨info, hprogram⟩ := (hkeys name).mp hname
      obtain ⟨c, hc, rfl⟩ := mem_map_progName hprogram
      exact hplain c hc
    have hinfos : ∀ name ∈ object.device.tdiInfoMap.keys,
        ∃ obj, tdiInfo s devId initTables name = .ok obj := by
      intro name hname
      obtain ⟨info, hprogram⟩ := (hkeys name).mp hname
      obtain ⟨obj, hobj⟩ := Option.isSome_iff_exists.mp (hinit name info hprogram)
      have hsome := hinfo name
      rw [hprogram, Option.bind_some, hobj] at hsome
      exact ⟨obj, eq_ok_of_toOption hsome⟩
    obtain ⟨infos, hrun, hfiled⟩ := foldlM_addInfo .empty hnames hinfos
    refine ⟨infos, ?_, fun name => ?_⟩
    · rw [initPrograms_eq initTables hget ((length_keys_le hdevice.symm).trans_lt hlen)]
      exact hrun
    · rw [hfiled, hinfo]
      split_ifs with hmem
      · rfl
      · have hnone : programOf load config name = none :=
          Option.eq_none_iff_forall_ne_some.mpr fun info he => hmem ((hkeys name).mpr ⟨info, he⟩)
        rw [hnone]
        rfl

end Devices

theorem infos_of_dummyDevMgr :
    ∃ infos, initPrograms dummyDevMgr 0 some = .ok infos ∧
      infos.get? "dummy_tna" = some (some forwardTables) := by
  have hplain : ∀ config ∈ dummyConfig, Plain config.progName := by
    intro config hconfig
    rw [List.mem_singleton.mp hconfig]
    exact ⟨by simp [IsAscii], by simp⟩
  obtain ⟨infos, hrun, hinfos⟩ := (infos_of_device some exec_dummyDevMgr 0).2 dummyConfig
    rfl (by decide) hplain fun _ _ _ => rfl
  exact ⟨infos, hrun, by rw [hinfos]; rfl⟩

end Tdi.Cli.Programs
