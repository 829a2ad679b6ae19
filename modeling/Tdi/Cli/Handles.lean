import Tdi.Cli.SetFields

/-!
# Adding and modifying an entry

`_call_add_mod` obtains a key, a data and a flags object, fills the first two,
makes the call and frees all three. What happens to the objects when one of the
steps fails is left to the helpers it calls.
-/
namespace Tdi.Cli

open Foundation HandleEvent

/-- What the driver answers: to the allocations by how many of the kind went before, and to
the setters by the name of the field and the call. -/
structure Driver where
  keyAllocate : ℕ → TdiStatus
  dataAllocate : Option TdiId → ℕ → TdiStatus
  flagsCreate : (flagsValue : ℕ) → ℕ → TdiStatus
  keyFieldSet : String → KeySet → TdiStatus
  dataFieldSet : String → DataSet → TdiStatus
  entryAdd : TdiStatus
  entryMod : TdiStatus
  entryGetFirst : TdiStatus
  /-- the status of a call, and the number of entries it returns -/
  entryGetNextN : ℕ → TdiStatus × ℕ
  dataActionId : Handle → TdiStatus × ℤ

structure ActionFields where
  id : TdiId
  dataFields : Dict SetField

/-- `TdiTable`, as far as the calls on entries read it. -/
structure TdiTable where
  keyFields : Dict SetField
  dataFields : Dict SetField
  actions : Dict ActionFields
  supportedCommands : List String
  /-- `flags_type_cls.flags_rev_dict` -/
  flagsRevDict : Dict ℕ

/-- The driver, a table, and `str` of a list or a dict. -/
structure TableCli where
  driver : Driver
  table : TdiTable
  display : Content → String

namespace TableCli

variable (c : TableCli)

section Setters

/-- One field is set: the conversion may raise, and a status other than success is raised. -/
def setField {σ : Type} (hdl : Handle) (set : Except Failure (Option σ)) (answer : σ → TdiStatus)
    (failed : Option TdiStatus → Failure) : Run Unit := do
  match ← Traced.ofExcept set with
  | none => Traced.raise (failed none)
  | some set => do
    Traced.emit [passed hdl]
    if answer set ≠ .success then Traced.raise (failed (some (answer set)))

/-- The loop over the fields of a table, which skips those that are not given. -/
def setFields (given : String → Option Content)
    (setOne : String → SetField → Content → Run Unit) : List (String × SetField) → Run TdiStatus
  | [] => pure .success
  | (name, info) :: fields =>
    match given name with
    | none => setFields given setOne fields
    | some value => do
      setOne name info value
      setFields given setOne fields

variable (hdl : Handle)

def setKeyField (name : String) (info : SetField) (value : Content) : Run Unit :=
  setField hdl (keySet info value) (c.driver.keyFieldSet name) .setKeyField

/-- `_set_key_fields` -/
def setKeyFields (content : Dict Content) : Run TdiStatus :=
  setFields content.get? (c.setKeyField hdl) c.table.keyFields.entries

def setDataField (name : String) (info : SetField) (value : Content) : Run Unit :=
  setField hdl (dataSet c.display info value) (c.driver.dataFieldSet name) .setDataField

/-- What is given for a data field, where `None` is as good as nothing. -/
def dataGiven (content : Dict Content) (name : String) : Option Content :=
  match content.get? name with
  | some .none => none
  | value => value

/-- `self.actions[action]` -/
def actionOf (action : String) : Except Failure ActionFields :=
  (c.table.actions.get? action).elim (.error (.python .keyError)) .ok

/-- `_set_data_fields` -/
def setDataFields (content : Dict Content) (action : Option String) : Run TdiStatus := do
  match action with
  | none => setFields (dataGiven content) (c.setDataField hdl) c.table.dataFields.entries
  | some action =>
    let info ← Traced.ofExcept (c.actionOf action)
    setFields (dataGiven content) (c.setDataField hdl) info.dataFields.entries

end Setters

section AddMod

variable (keyContent dataContent : Dict Content) (action : Option String)

/-- A new object is filled. It is freed where filling it fails without raising. -/
def filled (hdl : Handle) (fill : Run TdiStatus) : Run (Option Handle) := do
  Traced.emit [obtained hdl]
  let sts ← fill
  if sts ≠ .success then do
    Traced.emit [released hdl]
    return none
  else return some hdl

/-- `_make_call_keys`: none is `-1`. -/
def makeCallKeys : Run (Option Handle) :=
  let sts := c.driver.keyAllocate 0
  if sts ≠ .success then Traced.raise (.keyAllocate sts)
  else filled ⟨.key, 0⟩ (c.setKeyFields ⟨.key, 0⟩ keyContent)

/-- The id that the allocation of a data object is for. -/
def actionId : Run (Option TdiId) :=
  match action with
  | none => pure none
  | some action => do
    let info ← Traced.ofExcept (c.actionOf action)
    return some info.id

/-- `_make_call_data`: none is `-1`. -/
def makeCallData : Run (Option Handle) := do
  let id ← c.actionId action
  if c.driver.dataAllocate id 0 ≠ .success then return none
  else filled ⟨.data, 0⟩ (c.setDataFields ⟨.data, 0⟩ dataContent action)

/-- `_make_call_flags` -/
def makeCallFlags (flagsValue : ℕ) : Run Handle :=
  let sts := c.driver.flagsCreate flagsValue 0
  if sts ≠ .success then Traced.raise (.flagsCreate sts)
  else do
    Traced.emit [obtained ⟨.flags, 0⟩]
    return ⟨.flags, 0⟩

/-- `_call_add_mod`. The flags object is made before the other two are looked at. -/
def callAddMod (cFunc : TdiStatus) (flags : ℕ) : Run (Option TdiStatus) := do
  let keyHandle ← c.makeCallKeys keyContent
  let dataHandle ← c.makeCallData dataContent action
  let flagsHandle ← c.makeCallFlags flags
  match keyHandle, dataHandle with
  | some keyHandle, some dataHandle => do
    Traced.emit [passed keyHandle, passed dataHandle]
    Traced.emit [released keyHandle, released dataHandle, released flagsHandle]
    return some cFunc
  | keyHandle, dataHandle => do
    Traced.emit (keyHandle.toList.map released)
    Traced.emit (dataHandle.toList.map released)
    Traced.emit [released flagsHandle]
    return none

def addEntry : Run Unit := do
  let sts ← c.callAddMod keyContent dataContent action c.driver.entryAdd 0
  if sts ≠ some .success then Traced.raise (.entryAdd sts)

def modEntry (ttlReset : Bool) : Run Unit := do
  let flags := if ttlReset then 0 else 1 <<< 2
  let sts ← c.callAddMod keyContent dataContent action c.driver.entryMod flags
  if sts ≠ some .success then Traced.raise (.entryMod sts)

end AddMod

/-- The value converts, and the driver takes the call. -/
def Accepted {σ : Type} (set : Except Failure (Option σ)) (answer : σ → TdiStatus) : Prop :=
  ∃ call, set = .ok (some call) ∧ answer call = .success

/-- Every key field that is given is accepted. -/
def KeysAccepted (content : Dict Content) : Prop :=
  ∀ p ∈ c.table.keyFields.entries, ∀ value, content.get? p.1 = some value →
    Accepted (keySet p.2 value) (c.driver.keyFieldSet p.1)

/-- Every data field that is given is accepted. -/
def DataAccepted (fields : Dict SetField) (content : Dict Content) : Prop :=
  ∀ p ∈ fields.entries, ∀ value, dataGiven content p.1 = some value →
    Accepted (dataSet c.display p.2 value) (c.driver.dataFieldSet p.1)

/-- A step that only passes handles on, and returns exactly under a condition. -/
structure Fills {α : Type} (condition : Prop) (ret : α) (x : Run α) : Prop where
  passes : ∀ e ∈ x.events, ∃ h, e = passed h
  returns : condition → x.result = .ok ret
  raises : ¬ condition → ∃ e, x.result = .error e

theorem fills_setField {σ : Type} (hdl : Handle) (set : Except Failure (Option σ))
    (answer : σ → TdiStatus) (failed : Option TdiStatus → Failure) :
    Fills (Accepted set answer) () (setField hdl set answer failed) := by
  rcases set with e | _ | call
  · refine ⟨nofun, ?_, fun _ => ⟨e, rfl⟩⟩
    rintro ⟨call, hset, -⟩
    cases hset
  · refine ⟨nofun, ?_, fun _ => ⟨failed none, rfl⟩⟩
    rintro ⟨call, hset, -⟩
    cases hset
  · by_cases hanswer : answer call = .success
    · refine ⟨?_, fun _ => ?_, fun hnot => absurd ⟨call, rfl, hanswer⟩ hnot⟩
      · simp [setField, hanswer, pure]
      · simp [setField, hanswer, pure]
    · refine ⟨?_, ?_, fun _ => ⟨failed (some (answer call)), ?_⟩⟩
      · simp [setField, hanswer, Traced.raise]
      · rintro ⟨call', hset, hsuccess⟩
        cases hset
        exact absurd hsuccess hanswer
      · simp [setField, hanswer, Traced.raise]

theorem setFields_cons_of_none {given : String → Option Content}
    {setOne : String → SetField → Content → Run Unit} {name : String} {info : SetField}
    (h : given name = none) (fields : List (String × SetField)) :
    setFields given setOne ((name, info) :: fields) = setFields given setOne fields := by
  rw [setFields, h]

theorem setFields_cons_of_some {given : String → Option Content}
    {setOne : String → SetField → Content → Run Unit} {name : String} {info : SetField}
    {value : Content} (h : given name = some value) (fields : List (String × SetField)) :
    setFields given setOne ((name, info) :: fields) =
      setOne name info value >>= fun _ => setFields given setOne fields := by
  rw [setFields, h]

theorem fills_setFields {given : String → Option Content}
    {setOne : String → SetField → Content → Run Unit} {p : String → SetField → Content → Prop}
    (hone : ∀ name info value, Fills (p name info value) () (setOne name info value))
    (fields : List (String × SetField)) :
    Fills (∀ q ∈ fields, ∀ value, given q.1 = some value → p q.1 q.2 value) TdiStatus.success
      (setFields given setOne fields) := by
  induction fields with
  | nil => exact ⟨nofun, fun _ => rfl, fun hnot => absurd (by simp) hnot⟩
  | cons q fields ih =>
    obtain ⟨name, info⟩ := q
    cases hgiven : given name with
    | none =>
      have hcond : (∀ q ∈ (name, info) :: fields, ∀ value, given q.1 = some value →
          p q.1 q.2 value) ↔ ∀ q ∈ fields, ∀ value, given q.1 = some value → p q.1 q.2 value := by
        simp [hgiven]
      rw [hcond, setFields_cons_of_none hgiven]
      exact ih
    | some value =>
      have hcond : (∀ q ∈ (name, info) :: fields, ∀ value, given q.1 = some value →
          p q.1 q.2 value) ↔ p name info value ∧
            ∀ q ∈ fields, ∀ value, given q.1 = some value → p q.1 q.2 value := by
        simp [hgiven]
      rw [hcond, setFields_cons_of_some hgiven]
      have hfirst := hone name info value
      refine ⟨?_, fun h => ?_, fun hnot => ?_⟩
      · exact Traced.forall_events_bind hfirst.passes fun _ _ => ih.passes
      · rw [Traced.bind_of_ok (hfirst.returns h.1)]
        exact ih.returns h.2
      · by_cases hp : p name info value
        · rw [Traced.bind_of_ok (hfirst.returns hp)]
          exact ih.raises fun hall => hnot ⟨hp, hall⟩
        · obtain ⟨e, he⟩ := hfirst.raises hp
          rw [Traced.bind_of_error he]
          exact ⟨e, rfl⟩

theorem fills_setKeyFields (hdl : Handle) (content : Dict Content) :
    Fills (c.KeysAccepted content) TdiStatus.success (c.setKeyFields hdl content) :=
  fills_setFields
    (fun name info value =>
      fills_setField hdl (keySet info value) (c.driver.keyFieldSet name) .setKeyField)
    c.table.keyFields.entries

theorem fills_setDataFieldsOf (hdl : Handle) (content : Dict Content) (fields : Dict SetField) :
    Fills (c.DataAccepted fields content) TdiStatus.success
      (setFields (dataGiven content) (c.setDataField hdl) fields.entries) :=
  fills_setFields (fun name info value =>
    fills_setField hdl (dataSet c.display info value) (c.driver.dataFieldSet name) .setDataField)
    fields.entries

/-- The object is held on to, and it is returned exactly under a condition. -/
def Keeps (hdl : Handle) (condition : Prop) (x : Run (Option Handle)) : Prop :=
  ∃ events, Holding [hdl] events ∧
    ((¬ condition ∧ ∃ e, x = ⟨.error e, events⟩) ∨ condition ∧ x = ⟨.ok (some hdl), events⟩)

theorem keeps_filled (hdl : Handle) {fill : Run TdiStatus} {accepted : Prop}
    (hfill : Fills accepted TdiStatus.success fill) : Keeps hdl accepted (filled hdl fill) := by
  refine ⟨[obtained hdl] ++ fill.events, (Holding.obtain hdl).append_passed hfill.passes, ?_⟩
  by_cases haccepted : accepted
  · refine .inr ⟨haccepted, ?_⟩
    simp [filled, Traced.bind_of_ok (hfill.returns haccepted), pure]
  · obtain ⟨e, he⟩ := hfill.raises haccepted
    refine .inl ⟨haccepted, e, ?_⟩
    simp [filled, Traced.bind_of_error he]

/-- Without a key object an exception is raised. -/
theorem makeCallKeys_cases (content : Dict Content) :
    (c.driver.keyAllocate 0 ≠ .success ∧ ∃ e, c.makeCallKeys content = ⟨.error e, []⟩) ∨
    c.driver.keyAllocate 0 = .success ∧
      Keeps ⟨.key, 0⟩ (c.KeysAccepted content) (c.makeCallKeys content) := by
  by_cases halloc : c.driver.keyAllocate 0 = .success
  · refine .inr ⟨halloc, ?_⟩
    have hmake : c.makeCallKeys content = filled ⟨.key, 0⟩ (c.setKeyFields ⟨.key, 0⟩ content) :=
      if_neg (not_not.mpr halloc)
    rw [hmake]
    exact keeps_filled _ (c.fills_setKeyFields _ content)
  · exact .inl ⟨halloc, _, if_pos halloc⟩

/-- The id and the fields that go with the action, if it is known. -/
def scopeOf : Option String → Option (Option TdiId × Dict SetField)
  | none => some (none, c.table.dataFields)
  | some action => (c.table.actions.get? action).map fun info => (some info.id, info.dataFields)

/-- An unknown action raises. Without a data object there is none to return. -/
theorem makeCallData_cases (content : Dict Content) (action : Option String) :
    (c.scopeOf action = none ∧ ∃ e, c.makeCallData content action = ⟨.error e, []⟩) ∨
    ∃ id fields, c.scopeOf action = some (id, fields) ∧
      ((c.driver.dataAllocate id 0 ≠ .success ∧
          c.makeCallData content action = ⟨.ok none, []⟩) ∨
        c.driver.dataAllocate id 0 = .success ∧
          Keeps ⟨.data, 0⟩ (c.DataAccepted fields content) (c.makeCallData content action)) := by
  have hallocated : ∀ (id : Option TdiId) (fields : Dict SetField),
      c.makeCallData content action =
        (if c.driver.dataAllocate id 0 ≠ .success then pure none
        else filled ⟨.data, 0⟩
          (setFields (dataGiven content) (c.setDataField ⟨.data, 0⟩) fields.entries)) →
      (c.driver.dataAllocate id 0 ≠ .success ∧
          c.makeCallData content action = ⟨.ok none, []⟩) ∨
        c.driver.dataAllocate id 0 = .success ∧
          Keeps ⟨.data, 0⟩ (c.DataAccepted fields content) (c.makeCallData content action) := by
    intro id fields hmake
    by_cases halloc : c.driver.dataAllocate id 0 = .success
    · rw [if_neg (not_not.mpr halloc)] at hmake
      rw [hmake]
      exact .inr ⟨halloc, keeps_filled _ (c.fills_setDataFieldsOf _ content fields)⟩
    · rw [if_pos halloc] at hmake
      exact .inl ⟨halloc, hmake⟩
  cases action with
  | none => exact .inr ⟨none, c.table.dataFields, rfl, hallocated none c.table.dataFields rfl⟩
  | some action =>
    cases hinfo : c.table.actions.get? action with
    | none =>
      have hof : c.actionOf action = .error (.python .keyError) := by simp [actionOf, hinfo]
      refine .inl ⟨by simp [scopeOf, hinfo], .python .keyError, ?_⟩
      simp only [makeCallData, actionId, hof]
      rfl
    | some info =>
      have hof : c.actionOf action = .ok info := by simp [actionOf, hinfo]
      refine .inr ⟨some info.id, info.dataFields, by simp [scopeOf, hinfo], ?_⟩
      refine hallocated (some info.id) info.dataFields ?_
      simp only [makeCallData, actionId, setDataFields, hof]
      rfl

theorem makeCallFlags_cases (flags : ℕ) :
    (c.driver.flagsCreate flags 0 ≠ .success ∧ ∃ e, c.makeCallFlags flags = ⟨.error e, []⟩) ∨
    c.driver.flagsCreate flags 0 = .success ∧
      c.makeCallFlags flags = ⟨.ok ⟨.flags, 0⟩, [obtained ⟨.flags, 0⟩]⟩ := by
  by_cases hcreate : c.driver.flagsCreate flags 0 = .success
  · exact .inr ⟨hcreate, if_neg (not_not.mpr hcreate)⟩
  · exact .inl ⟨hcreate, _, if_pos hcreate⟩

section AddMod

variable (keyContent dataContent : Dict Content) (action : Option String)

/-- No key object is made, or both objects are filled without an exception, as far as they are
made, and the flags object is made. -/
def AddModCompletes (flags : ℕ) : Prop :=
  c.driver.keyAllocate 0 ≠ .success ∨
    c.KeysAccepted keyContent ∧
      (∃ id fields, c.scopeOf action = some (id, fields) ∧
        (c.driver.dataAllocate id 0 ≠ .success ∨ c.DataAccepted fields dataContent)) ∧
      c.driver.flagsCreate flags 0 = .success

section KeyHeld

variable {keyContent dataContent action} {kwork dwork : List (HandleEvent Handle)}
  {cFunc : TdiStatus} {flags : ℕ}

/-- With the key object alone, the two objects that are made are freed. -/
theorem balanced_callAddMod_of_no_data
    (hkey : c.makeCallKeys keyContent = ⟨.ok (some ⟨.key, 0⟩), kwork⟩)
    (hkwork : Holding [⟨.key, 0⟩] kwork)
    (hdata : c.makeCallData dataContent action = ⟨.ok none, []⟩) :
    Balanced (c.callAddMod keyContent dataContent action cFunc flags).events ↔
      c.driver.flagsCreate flags 0 = .success := by
  have hnodup : [(⟨.key, 0⟩ : Handle), ⟨.flags, 0⟩].Nodup := by decide
  rcases c.makeCallFlags_cases flags with ⟨hnoflags, e, hflags⟩ | ⟨hcreate, hflags⟩
  · have hevents : (c.callAddMod keyContent dataContent action cFunc flags).events = kwork := by
      simp [callAddMod, hkey, hdata, hflags]
    rw [hevents, hkwork.balanced_iff]
    exact ⟨nofun, fun h => absurd h hnoflags⟩
  · have hevents : (c.callAddMod keyContent dataContent action cFunc flags).events =
        (kwork ++ [obtained ⟨.flags, 0⟩]) ++ [⟨.key, 0⟩, ⟨.flags, 0⟩].map released := by
      simp [callAddMod, hkey, hdata, hflags, pure]
    rw [hevents, (hkwork.append (.obtain _)).balanced_append_released_iff hnodup]
    exact ⟨fun _ => hcreate, fun _ => by simp⟩

/-- With both objects, the call is made and all three are freed. -/
theorem balanced_callAddMod_of_data
    (hkey : c.makeCallKeys keyContent = ⟨.ok (some ⟨.key, 0⟩), kwork⟩)
    (hkwork : Holding [⟨.key, 0⟩] kwork)
    (hdata : c.makeCallData dataContent action = ⟨.ok (some ⟨.data, 0⟩), dwork⟩)
    (hdwork : Holding [⟨.data, 0⟩] dwork) :
    Balanced (c.callAddMod keyContent dataContent action cFunc flags).events ↔
      c.driver.flagsCreate flags 0 = .success := by
  have hnodup : [(⟨.key, 0⟩ : Handle), ⟨.data, 0⟩, ⟨.flags, 0⟩].Nodup := by decide
  have hwork := hkwork.append hdwork
  rcases c.makeCallFlags_cases flags with ⟨hnoflags, e, hflags⟩ | ⟨hcreate, hflags⟩
  · have hevents : (c.callAddMod keyContent dataContent action cFunc flags).events =
        kwork ++ dwork := by
      simp [callAddMod, hkey, hdata, hflags]
    rw [hevents, hwork.balanced_iff]
    exact ⟨nofun, fun h => absurd h hnoflags⟩
  · let call : List (HandleEvent Handle) := [passed ⟨.key, 0⟩, passed ⟨.data, 0⟩]
    have hcall : ∀ e ∈ call, ∃ h, e = passed h := by simp [call]
    have hevents : (c.callAddMod keyContent dataContent action cFunc flags).events =
        (kwork ++ dwork ++ [obtained ⟨.flags, 0⟩] ++ call) ++
          [⟨.key, 0⟩, ⟨.data, 0⟩, ⟨.flags, 0⟩].map released := by
      simp [callAddMod, hkey, hdata, hflags, pure, call]
    rw [hevents, ((hwork.append (.obtain _)).append_passed hcall).balanced_append_released_iff
      hnodup]
    exact ⟨fun _ => hcreate, fun _ => by simp⟩

end KeyHeld

theorem balanced_callAddMod_iff (cFunc : TdiStatus) (flags : ℕ) :
    Balanced (c.callAddMod keyContent dataContent action cFunc flags).events ↔
      c.AddModCompletes keyContent dataContent action flags := by
  rcases c.makeCallKeys_cases keyContent with
    ⟨hunmade, e, hkey⟩ | ⟨hmade, kwork, hkwork, ⟨hrejected, e, hkey⟩ | ⟨haccepted, hkey⟩⟩
  · have hevents : (c.callAddMod keyContent dataContent action cFunc flags).events = [] := by
      simp [callAddMod, hkey]
    rw [hevents, Holding.nil.balanced_iff]
    exact ⟨fun _ => .inl hunmade, fun _ => rfl⟩
  · have hevents : (c.callAddMod keyContent dataContent action cFunc flags).events = kwork := by
      simp [callAddMod, hkey]
    rw [hevents, hkwork.balanced_iff]
    refine ⟨nofun, ?_⟩
    rintro (hunmade | ⟨haccepted, -⟩)
    · exact absurd hmade hunmade
    · exact absurd haccepted hrejected
  -- the key object is held on to from here, so an exception leaks it
  · have hcompletes : c.AddModCompletes keyContent dataContent action flags ↔
        (∃ id fields, c.scopeOf action = some (id, fields) ∧
          (c.driver.dataAllocate id 0 ≠ .success ∨ c.DataAccepted fields dataContent)) ∧
        c.driver.flagsCreate flags 0 = .success := by
      simp [AddModCompletes, hmade, haccepted]
    rw [hcompletes]
    rcases c.makeCallData_cases dataContent action with
      ⟨hunknown, e, hdata⟩ | ⟨id, fields, hscope, hdata⟩
    · have hevents : (c.callAddMod keyContent dataContent action cFunc flags).events = kwork := by
        simp [callAddMod, hkey, hdata]
      rw [hevents, hkwork.balanced_iff]
      refine ⟨nofun, ?_⟩
      rintro ⟨⟨id, fields, hscope, -⟩, -⟩
      rw [hunknown] at hscope
      cases hscope
    have hscoped : (∃ id fields, c.scopeOf action = some (id, fields) ∧
        (c.driver.dataAllocate id 0 ≠ .success ∨ c.DataAccepted fields dataContent)) ↔
        (c.driver.dataAllocate id 0 ≠ .success ∨ c.DataAccepted fields dataContent) := by
      simp [hscope]
    rw [hscoped]
    rcases hdata with
      ⟨hunmade, hdata⟩ | ⟨hdmade, dwork, hdwork, ⟨hrejected, e, hdata⟩ | ⟨hdaccepted, hdata⟩⟩
    · rw [c.balanced_callAddMod_of_no_data hkey hkwork hdata]
      exact (and_iff_right (.inl hunmade)).symm
    · have hevents : (c.callAddMod keyContent dataContent action cFunc flags).events =
          kwork ++ dwork := by
        simp [callAddMod, hkey, hdata]
      rw [hevents, (hkwork.append hdwork).balanced_iff]
      refine ⟨nofun, ?_⟩
      rintro ⟨hunmade | hdaccepted, -⟩
      · exact absurd hdmade hunmade
      · exact absurd hdaccepted hrejected
    · rw [c.balanced_callAddMod_of_data hkey hkwork hdata hdwork]
      exact (and_iff_right (.inr hdaccepted)).symm

theorem events_addEntry : (c.addEntry keyContent dataContent action).events =
    (c.callAddMod keyContent dataContent action c.driver.entryAdd 0).events :=
  Traced.events_bind_of_quiet fun sts => by
    by_cases h : sts = some .success <;> simp [h, pure, Traced.raise]

theorem events_modEntry (ttlReset : Bool) :
    (c.modEntry keyContent dataContent action ttlReset).events = (c.callAddMod
      keyContent dataContent action c.driver.entryMod (if ttlReset then 0 else 1 <<< 2)).events :=
  Traced.events_bind_of_quiet fun sts => by
    by_cases h : sts = some .success <;> simp [h, pure, Traced.raise]

end AddMod

end TableCli

end Tdi.Cli
