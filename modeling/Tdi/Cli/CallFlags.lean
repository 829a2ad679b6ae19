import Tdi.Cli.DumpBalance

/-!
# The flags argument of an add or a modify call

`_call_add_mod` makes a flags object with the value it is given and frees it at the
end. What it passes to the driver is another thing: the address of the session's own
pointer variable, which `_init_programs` leaves null.
-/
namespace Tdi.Cli

open Foundation HandleEvent

/-- A flags object: the one of the session, or one that a call has made. -/
inductive FlagsObject where
  | session
  | call (hdl : Handle)
  deriving DecidableEq

/-- The value of a `flags_type`. -/
inductive FlagsPointer where
  | null
  | object (flags : FlagsObject)

/-- What is passed for a `tdi_flags_hdl *`: such a value, or the address of a variable that
holds one. -/
inductive FlagsArgument where
  | pointer (value : FlagsPointer)
  | byref (variableValue : FlagsPointer)

/-- `CIntfTdi`, as far as flags go, with the objects that are alive and the values they were
created with. -/
structure CIntfTdi where
  flags : FlagsPointer
  live : List (FlagsObject × ℕ)

namespace CIntfTdi

/-- `_init_programs`, by the answer to the one call of `tdi_flags_create`. -/
def initPrograms (created : TdiStatus) : CIntfTdi :=
  let self : CIntfTdi := ⟨.null, []⟩
  let self : CIntfTdi :=
    if created = .success then ⟨.object .session, [(.session, 0)]⟩ else self
  -- the variable is made anew after the infos
  { self with flags := .null }

def getFlags (self : CIntfTdi) : FlagsArgument := .byref self.flags

end CIntfTdi

/-- The arguments of a call of `c_func`, and the flags objects that are alive at the call. -/
structure Invocation where
  flags : FlagsArgument
  key : Handle
  data : Handle
  live : List (FlagsObject × ℕ)

/-- The call receives a live flags object that was created with the value. -/
def Invocation.Receives (inv : Invocation) (flags : ℕ) : Prop :=
  ∃ object, inv.flags = .pointer (.object object) ∧ (object, flags) ∈ inv.live

namespace TableCli

variable (c : TableCli) (cintf : CIntfTdi) (keyContent dataContent : Dict Content)
  (action : Option String) (flags : ℕ)

/-- `_call_add_mod` up to the call of `c_func`, none where it is not made. -/
def callAddModInvocation : Run (Option Invocation) := do
  let keyHandle ← c.makeCallKeys keyContent
  let dataHandle ← c.makeCallData dataContent action
  let flagsHandle ← c.makeCallFlags flags
  match keyHandle, dataHandle with
  | some key, some data =>
    return some ⟨cintf.getFlags, key, data, cintf.live ++ [(.call flagsHandle, flags)]⟩
  | _, _ => return none

def modEntryInvocation (ttlReset : Bool) : Run (Option Invocation) :=
  let flags := if ttlReset then 0 else 1 <<< 2
  c.callAddModInvocation cintf keyContent dataContent action flags

/-- Both objects are made and filled, and a flags object is made. -/
structure CallReached : Prop where
  keyAllocate : c.driver.keyAllocate 0 = .success
  keys : c.KeysAccepted keyContent
  data : ∃ id fields, c.scopeOf action = some (id, fields) ∧
    c.driver.dataAllocate id 0 = .success ∧ c.DataAccepted fields dataContent
  flagsCreate : c.driver.flagsCreate flags 0 = .success

/-- The call is made where its status is returned, after what happened up to it. -/
theorem callAddMod_of_invocation (cFunc : TdiStatus) :
    (c.callAddMod keyContent dataContent action cFunc flags).result =
        (c.callAddModInvocation cintf keyContent dataContent action flags).result.map
          (Option.map fun _ => cFunc) ∧
      (c.callAddModInvocation cintf keyContent dataContent action flags).events <+:
        (c.callAddMod keyContent dataContent action cFunc flags).events := by
  cases hkey : c.makeCallKeys keyContent with | mk kresult kwork =>
  cases hdata : c.makeCallData dataContent action with | mk dresult dwork =>
  cases hflags : c.makeCallFlags flags with | mk fresult fwork =>
  rcases kresult with e | key
  · simp [callAddMod, callAddModInvocation, hkey, Except.map]
  rcases dresult with e | data
  · simp [callAddMod, callAddModInvocation, hkey, hdata, Except.map]
  rcases fresult with e | hdl
  · simp [callAddMod, callAddModInvocation, hkey, hdata, hflags, Except.map]
  cases key <;> cases data <;>
    simp [callAddMod, callAddModInvocation, hkey, hdata, hflags, Except.map, pure]

theorem result_of_keeps {hdl hdl' : Handle} {condition : Prop} {x : Run (Option Handle)}
    (h : Keeps hdl condition x) : x.result = .ok (some hdl') ↔ hdl' = hdl ∧ condition := by
  obtain ⟨events, -, ⟨hnot, e, rfl⟩ | ⟨hcondition, rfl⟩⟩ := h
  · constructor
    · intro hok
      cases hok
    · intro hand
      exact absurd hand.2 hnot
  · constructor
    · intro hok
      cases hok
      exact ⟨rfl, hcondition⟩
    · intro hand
      rw [hand.1]

theorem result_makeCallKeys_iff {key : Handle} :
    (c.makeCallKeys keyContent).result = .ok (some key) ↔
      key = ⟨.key, 0⟩ ∧ c.driver.keyAllocate 0 = .success ∧ c.KeysAccepted keyContent := by
  rcases c.makeCallKeys_cases keyContent with ⟨hunmade, e, hkey⟩ | ⟨hmade, hkeeps⟩
  · rw [hkey]
    constructor
    · intro hok
      cases hok
    · intro hand
      exact absurd hand.2.1 hunmade
  · rw [result_of_keeps hkeeps, and_iff_right hmade]

theorem result_makeCallData_iff {data : Handle} :
    (c.makeCallData dataContent action).result = .ok (some data) ↔
      data = ⟨.data, 0⟩ ∧ ∃ id fields, c.scopeOf action = some (id, fields) ∧
        c.driver.dataAllocate id 0 = .success ∧ c.DataAccepted fields dataContent := by
  rcases c.makeCallData_cases dataContent action with
    ⟨hunknown, e, hdata⟩ | ⟨id, fields, hscope, ⟨hunmade, hdata⟩ | ⟨hmade, hkeeps⟩⟩
  · rw [hdata, hunknown]
    constructor
    · intro hok
      cases hok
    · intro ⟨_, _, _, hnone, _⟩
      cases hnone
  · rw [hdata, hscope]
    constructor
    · intro hok
      cases hok
    · intro ⟨_, _, _, hsome, hmade, _⟩
      cases hsome
      exact absurd hmade hunmade
  · rw [result_of_keeps hkeeps, hscope]
    apply and_congr_right
    intro _
    constructor
    · intro haccepted
      exact ⟨id, fields, rfl, hmade, haccepted⟩
    · intro ⟨_, _, hsome, _, haccepted⟩
      cases hsome
      exact haccepted

theorem result_makeCallFlags_iff {hdl : Handle} :
    (c.makeCallFlags flags).result = .ok hdl ↔
      hdl = ⟨.flags, 0⟩ ∧ c.driver.flagsCreate flags 0 = .success := by
  rcases c.makeCallFlags_cases flags with ⟨hunmade, e, hflags⟩ | ⟨hmade, hflags⟩
  · rw [hflags]
    constructor
    · intro hok
      cases hok
    · intro hand
      exact absurd hand.2 hunmade
  · rw [hflags, and_iff_left hmade]
    constructor
    · intro hok
      cases hok
      rfl
    · intro he
      rw [he]

/-- `c_func` is called exactly where nothing fails before, with the address of the variable. -/
theorem result_callAddModInvocation_iff {inv : Invocation} :
    (c.callAddModInvocation cintf keyContent dataContent action flags).result = .ok (some inv) ↔
      c.CallReached keyContent dataContent action flags ∧
        inv = ⟨cintf.getFlags, ⟨.key, 0⟩, ⟨.data, 0⟩,
          cintf.live ++ [(.call ⟨.flags, 0⟩, flags)]⟩ := by
  simp only [callAddModInvocation, Traced.result_bind_eq_ok_iff, result_makeCallFlags_iff]
  constructor
  · intro ⟨key, hkey, data, hdata, hdl, ⟨hhdl, hcreate⟩, hinv⟩
    rcases key with _ | key
    · cases hinv
    rcases data with _ | data
    · cases hinv
    obtain ⟨rfl, halloc, hkeys⟩ := c.result_makeCallKeys_iff keyContent |>.mp hkey
    obtain ⟨rfl, hscope⟩ := c.result_makeCallData_iff dataContent action |>.mp hdata
    subst hhdl
    cases hinv
    exact ⟨⟨halloc, hkeys, hscope, hcreate⟩, rfl⟩
  · intro ⟨hreached, hinv⟩
    refine ⟨some ⟨.key, 0⟩, ?_, some ⟨.data, 0⟩, ?_, ⟨.flags, 0⟩, ⟨rfl, hreached.flagsCreate⟩, ?_⟩
    · exact (c.result_makeCallKeys_iff keyContent).mpr ⟨rfl, hreached.keyAllocate, hreached.keys⟩
    · exact (c.result_makeCallData_iff dataContent action).mpr ⟨rfl, hreached.data⟩
    · rw [hinv]
      rfl

/-- What the driver receives for the flags is no flags object, whatever was requested: the
request is honoured exactly where the call is not made. -/
theorem flags_received_iff (created : TdiStatus) :
    (∀ inv, (c.callAddModInvocation (.initPrograms created) keyContent dataContent action
        flags).result = .ok (some inv) → inv.Receives flags) ↔
      ¬c.CallReached keyContent dataContent action flags := by
  constructor
  · intro hall hreached
    have hinv := (c.result_callAddModInvocation_iff (.initPrograms created) keyContent dataContent
      action flags).mpr ⟨hreached, rfl⟩
    obtain ⟨object, hpointer, _⟩ := hall _ hinv
    cases hpointer
  · intro hnot inv hinv
    exact absurd ((c.result_callAddModInvocation_iff _ _ _ _ _).mp hinv).1 hnot

end TableCli

/-- A modification that leaves the time to live alone: the call is made, and what it receives is
no flags object. -/
theorem vlanCli_flags_not_received :
    ∃ inv, (vlanCli.modEntryInvocation (.initPrograms .success) ⟨[("vlan", .int 5)], by simp⟩
        ⟨[], by simp⟩ none false).result = .ok (some inv) ∧ ¬inv.Receives 4 := by
  refine ⟨_, rfl, ?_⟩
  intro ⟨object, hpointer, _⟩
  cases hpointer

end Tdi.Cli
