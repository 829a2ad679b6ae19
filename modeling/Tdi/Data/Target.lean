import Mathlib
import Tdi.Defs
import Tdi.Foundation.Registers

/-!
# Targets

A target says on which part of a device a call works. Its fields are set and read as
64-bit numbers and stored in narrower members: the core class has the device, the classes
of the TNA and PNA architectures have a pipe and a direction of their own and leave all
other field numbers to the core class.
-/
namespace Tdi.Data

open Tdi.Foundation

def targetDevId : EnumCode := 0
def targetArch : EnumCode := 8

/-- `tdi::Target` -/
structure Target where
  devId : UInt32
  deriving DecidableEq, Repr

namespace Target

def setValue (t : Target) (field : EnumCode) (value : UInt64) : TdiStatus × Target :=
  if field = targetDevId then (.success, { t with devId := value.toUInt32 })
  else (.invalidArg, t)

def getValue (t : Target) (field : EnumCode) : Except TdiStatus UInt64 :=
  if field = targetDevId then .ok t.devId.toUInt64 else .error .invalidArg

end Target

/-- `tna::Target` and `pna::Target`. The enumeration of the directions has no negative
member; how many bits an object of it has is the compiler's choice. -/
structure ArchTarget (directionBits : ℕ) extends Target where
  pipeId : UInt32
  direction : BitVec directionBits
  deriving DecidableEq, Repr

namespace ArchTarget

variable {directionBits : ℕ} (pipeField directionField : EnumCode) (t : ArchTarget directionBits)

def setValue (field : EnumCode) (value : UInt64) : TdiStatus × ArchTarget directionBits :=
  if field = pipeField then (.success, { t with pipeId := value.toUInt32 })
  else if field = directionField then
    (.success, { t with direction := .ofNat directionBits value.toNat })
  else
    let base := t.toTarget.setValue field value
    (base.1, { t with toTarget := base.2 })

def getValue (field : EnumCode) : Except TdiStatus UInt64 :=
  if field = pipeField then .ok t.pipeId.toUInt64
  else if field = directionField then .ok (.ofNat t.direction.toNat)
  else t.toTarget.getValue field

end ArchTarget

namespace Tna

def targetPipeId : EnumCode := targetArch
def targetDirection : EnumCode := 9

variable {directionBits : ℕ}

def setValue :
    ArchTarget directionBits → EnumCode → UInt64 → TdiStatus × ArchTarget directionBits :=
  ArchTarget.setValue targetPipeId targetDirection

def getValue : ArchTarget directionBits → EnumCode → Except TdiStatus UInt64 :=
  ArchTarget.getValue targetPipeId targetDirection

end Tna

namespace Pna

def targetPipeId : EnumCode := targetArch + 0
def targetDirection : EnumCode := targetArch + 1

variable {directionBits : ℕ}

def setValue :
    ArchTarget directionBits → EnumCode → UInt64 → TdiStatus × ArchTarget directionBits :=
  ArchTarget.setValue targetPipeId targetDirection

def getValue : ArchTarget directionBits → EnumCode → Except TdiStatus UInt64 :=
  ArchTarget.getValue targetPipeId targetDirection

end Pna

/-- The virtual methods as a class of targets overrides them. -/
structure TargetClass where
  Object : Type
  setValue : Object → EnumCode → UInt64 → TdiStatus × Object
  getValue : Object → EnumCode → Except TdiStatus UInt64

namespace TargetClass

variable (C : TargetClass)

/-- The object after calls of `setValue`. -/
def setAll (t : C.Object) (calls : List (EnumCode × UInt64)) : C.Object :=
  run (fun t call => (C.setValue t call.1 call.2).2) t calls

/-- The calls that return success, in the order in which they are made. -/
def successes : C.Object → List (EnumCode × UInt64) → List (EnumCode × UInt64)
  | _, [] => []
  | t, call :: calls =>
    let rest := successes (C.setValue t call.1 call.2).2 calls
    if (C.setValue t call.1 call.2).1 = .success then call :: rest else rest

/-- What an independent store promises of the calls: `width` gives the supported fields. -/
structure BehavesAsStore (width : EnumCode → Option ℕ) (t : C.Object)
    (calls : List (EnumCode × UInt64)) : Prop where
  last : ∀ f, (width f).isSome = true → ∃ old, C.getValue t f = .ok old ∧
    C.getValue (C.setAll t calls) f = .ok ((lastValue (C.successes t calls) f).getD old)
  frame : ∀ pre f v g, pre <+: calls → f ≠ g →
    C.getValue (C.setValue (C.setAll t pre) f v).2 g = C.getValue (C.setAll t pre) g
  unsupported : ∀ pre f v, pre <+: calls → width f = none →
    (C.setValue (C.setAll t pre) f v).1 ≠ .success ∧
      (C.setValue (C.setAll t pre) f v).2 = C.setAll t pre

/-- What one call does: a supported field keeps as many low bits as it is wide. -/
structure Lawful (width : EnumCode → Option ℕ) : Prop where
  set_unsupported : ∀ t f v, width f = none → C.setValue t f v = (.invalidArg, t)
  set_supported : ∀ t f v, (width f).isSome = true → (C.setValue t f v).1 = .success
  get_supported : ∀ t f, (C.getValue t f).toOption.isSome = (width f).isSome
  get_set : ∀ t f v g, C.getValue (C.setValue t f v).2 g =
    if f = g then (C.getValue t g).map fun _ => .ofNat (v.toNat % 2 ^ (width f).getD 0)
    else C.getValue t g

variable {C} {width : EnumCode → Option ℕ}

theorem successes_eq_filter (h : C.Lawful width) (t : C.Object)
    (calls : List (EnumCode × UInt64)) :
    C.successes t calls = calls.filter fun call => (width call.1).isSome := by
  induction calls generalizing t with
  | nil => rfl
  | cons call calls ih =>
    rw [successes, ih, List.filter_cons]
    cases hw : width call.1 with
    | none => simp [h.set_unsupported t _ call.2 hw]
    | some w => simp [h.set_supported t call.1 call.2 (by simp [hw])]

theorem lastValue_successes (h : C.Lawful width) (t : C.Object)
    (calls : List (EnumCode × UInt64)) {f : EnumCode} (hf : (width f).isSome = true) :
    lastValue (C.successes t calls) f = lastValue calls f := by
  rw [successes_eq_filter h]
  induction calls using List.reverseRecOn with
  | nil => rfl
  | append_singleton calls call ih =>
    rw [List.filter_append, lastValue_append, ih, lastValue_concat]
    by_cases hcall : call.1 = f
    · simp [hcall, hf, lastValue]
    · cases hw : width call.1 <;> simp [hcall, hw, lastValue]

/-- The fields of a target as registers. -/
def registers (h : C.Lawful width) : Registers C.Object EnumCode UInt64 where
  write t f v := (C.setValue t f v).2
  read t f := (C.getValue t f).toOption
  keep f v := .ofNat (v.toNat % 2 ^ (width f).getD 0)
  read_write t f v g := by
    rw [h.get_set]
    split_ifs with hfg
    · subst hfg
      cases C.getValue t f <;> rfl
    · rfl

theorem keep_eq_self_iff (v : UInt64) (w : ℕ) :
    UInt64.ofNat (v.toNat % 2 ^ w) = v ↔ v.toNat < 2 ^ w := by
  have hle : v.toNat % 2 ^ w < 2 ^ 64 := (Nat.mod_le _ _).trans_lt v.toNat_lt
  rw [← UInt64.toNat_inj, UInt64.toNat_ofNat_of_lt' hle]
  exact Nat.mod_eq_iff_lt (by positivity)

/-- A class of targets behaves as a store over a run of calls exactly when the value set
last on each field fits in it. -/
theorem behavesAsStore_iff_of_lawful (h : C.Lawful width) (t : C.Object)
    (calls : List (EnumCode × UInt64)) :
    C.BehavesAsStore width t calls ↔
      ∀ f w v, width f = some w → lastValue calls f = some v → v.toNat < 2 ^ w := by
  have hlast : ∀ f old, (width f).isSome = true → C.getValue t f = .ok old →
      (C.getValue (C.setAll t calls) f = .ok ((lastValue (C.successes t calls) f).getD old) ↔
        ∀ v, lastValue calls f = some v → v.toNat < 2 ^ (width f).getD 0) := by
    intro f old hf hold
    have hread : ((registers h).read t f) = some old := by
      simp [registers, hold, Except.toOption]
    have hiff := (registers h).read_writeAll_eq_iff hread calls
    rw [lastValue_successes h t calls hf]
    refine Iff.trans ?_ (hiff.trans ?_)
    · change _ ↔ (C.getValue (C.setAll t calls) f).toOption = _
      cases C.getValue (C.setAll t calls) f <;> simp [Except.toOption]
    · exact forall₂_congr fun v _ => keep_eq_self_iff v _
  constructor
  · intro hstore f w v hf hv
    have hsome : (width f).isSome = true := by simp [hf]
    obtain ⟨old, hold, hget⟩ := hstore.last f hsome
    simpa [hf] using (hlast f old hsome hold).mp hget v hv
  · intro hfits
    constructor
    · intro f hf
      obtain ⟨w, hw⟩ := Option.isSome_iff_exists.mp hf
      have hok : (C.getValue t f).toOption.isSome = true := (h.get_supported t f).trans hf
      cases hget : C.getValue t f with
      | error e => simp [hget, Except.toOption] at hok
      | ok old =>
        refine ⟨old, rfl, (hlast f old hf hget).mpr ?_⟩
        intro v hv
        simpa [hw] using hfits f w v hw hv
    · intro pre f v g _ hfg
      rw [h.get_set, if_neg hfg]
    · intro pre f v _ hf
      rw [h.set_unsupported _ f v hf]
      exact ⟨by simp, rfl⟩

end TargetClass

section Classes

variable {directionBits : ℕ}

/-- The class of a device without an architecture, and of those with one. -/
inductive Arch where
  | core
  | tna
  | pna
  deriving DecidableEq, Repr

/-- The bits in which a class stores each of its fields. -/
def coreWidth (field : EnumCode) : Option ℕ := if field = targetDevId then some 32 else none

def archWidth (directionBits : ℕ) (pipeField directionField field : EnumCode) : Option ℕ :=
  if field = pipeField then some 32
  else if field = directionField then some directionBits
  else coreWidth field

def Arch.width (directionBits : ℕ) : Arch → EnumCode → Option ℕ
  | core => coreWidth
  | tna => archWidth directionBits Tna.targetPipeId Tna.targetDirection
  | pna => archWidth directionBits Pna.targetPipeId Pna.targetDirection

def Arch.targetClass (directionBits : ℕ) : Arch → TargetClass
  | core => ⟨Target, Target.setValue, Target.getValue⟩
  | tna => ⟨ArchTarget directionBits, Tna.setValue, Tna.getValue⟩
  | pna => ⟨ArchTarget directionBits, Pna.setValue, Pna.getValue⟩

theorem toUInt64_toUInt32 (v : UInt64) :
    v.toUInt32.toUInt64 = UInt64.ofNat (v.toNat % 2 ^ 32) := by
  have hlt : v.toNat % 2 ^ 32 < UInt64.size := (Nat.mod_lt _ (by norm_num)).trans (by decide)
  rw [← UInt64.toNat_inj, UInt64.toNat_ofNat_of_lt' hlt]
  simp

theorem Target.lawful : TargetClass.Lawful ⟨Target, setValue, getValue⟩ coreWidth where
  set_unsupported t f v h := by simp_all [setValue, coreWidth]
  set_supported t f v h := by simp_all [setValue, coreWidth]
  get_supported t f := by
    by_cases hf : f = targetDevId <;> simp [getValue, coreWidth, hf, Except.toOption]
  get_set t f v g := by
    change (t.setValue f v).2.getValue g = if f = g then (t.getValue g).map _ else t.getValue g
    by_cases hf : f = targetDevId
    · subst hf
      by_cases hg : targetDevId = g
      · subst hg
        simp only [setValue, getValue, if_true, toUInt64_toUInt32]
        rfl
      · simp [getValue, hg, Ne.symm hg]
    · by_cases hg : f = g
      · simp [getValue, hg, hg ▸ hf, Except.map]
      · simp [setValue, hf, hg]

theorem ArchTarget.lawful (pipeField directionField : EnumCode) :
    TargetClass.Lawful ⟨ArchTarget directionBits, setValue pipeField directionField,
      getValue pipeField directionField⟩ (archWidth directionBits pipeField directionField) where
  set_unsupported t f v h := by
    simp only [archWidth, ite_eq_iff, reduceCtorEq, and_false, false_or] at h
    obtain ⟨hpipe, hdir, hcore⟩ := h
    have hbase : t.toTarget.setValue f v = (.invalidArg, t.toTarget) :=
      Target.lawful.set_unsupported t.toTarget f v hcore
    simp [setValue, hpipe, hdir, hbase]
  set_supported t f v h := by
    change (setValue pipeField directionField t f v).1 = .success
    by_cases hpipe : f = pipeField
    · simp [setValue, hpipe]
    by_cases hdir : f = directionField
    · simp only [setValue, if_neg hpipe, if_pos hdir]
    simp only [archWidth, if_neg hpipe, if_neg hdir] at h
    simp only [setValue, if_neg hpipe, if_neg hdir]
    exact Target.lawful.set_supported t.toTarget f v h
  get_supported t f := by
    change (getValue pipeField directionField t f).toOption.isSome = _
    simp only [getValue, archWidth]
    split_ifs
    · rfl
    · rfl
    · exact Target.lawful.get_supported t.toTarget f
  get_set t f v g := by
    change getValue pipeField directionField (setValue pipeField directionField t f v).2 g =
      if f = g then (getValue pipeField directionField t g).map _
      else getValue pipeField directionField t g
    by_cases hpipe : f = pipeField
    · subst hpipe
      by_cases hg : f = g
      · subst hg
        simp only [setValue, getValue, archWidth, if_true, toUInt64_toUInt32]
        rfl
      · simp [setValue, getValue, hg, Ne.symm hg]
    by_cases hdir : f = directionField
    · subst hdir
      by_cases hg : f = g
      · subst hg
        simp only [setValue, getValue, archWidth, if_neg hpipe, if_true, BitVec.toNat_ofNat]
        rfl
      · simp [setValue, getValue, hpipe, hg, Ne.symm hg]
    have hbase := Target.lawful.get_set t.toTarget f v g
    simp only [setValue, if_neg hpipe, if_neg hdir]
    by_cases hg : f = g
    · subst hg
      rw [if_pos rfl] at hbase ⊢
      simp only [getValue, archWidth, if_neg hpipe, if_neg hdir]
      exact hbase
    · rw [if_neg hg] at hbase ⊢
      simp only [getValue]
      split_ifs
      · rfl
      · rfl
      · exact hbase

theorem Arch.lawful (arch : Arch) :
    (arch.targetClass directionBits).Lawful (arch.width directionBits) := by
  cases arch with
  | core => exact Target.lawful
  | tna => exact ArchTarget.lawful _ _
  | pna => exact ArchTarget.lawful _ _

/-- Over every sequence of calls on every target a class behaves as a store exactly when each
field's last value fits in the member in which the field is stored. -/
theorem Arch.behavesAsStore_iff (arch : Arch) (t : (arch.targetClass directionBits).Object)
    (calls : List (EnumCode × UInt64)) :
    (arch.targetClass directionBits).BehavesAsStore (arch.width directionBits) t calls ↔
      ∀ f w v, arch.width directionBits f = some w → lastValue calls f = some v →
        v.toNat < 2 ^ w :=
  TargetClass.behavesAsStore_iff_of_lawful arch.lawful t calls

/-- The device 0 is not the device `2 ^ 32`, but it is what is read after that is set. -/
theorem Arch.not_behavesAsStore_of_wide_device :
    (Target.setValue ⟨0⟩ targetDevId 0x100000000).1 = .success ∧
      ¬(Arch.core.targetClass 32).BehavesAsStore coreWidth ⟨0⟩
        [(targetDevId, 0x100000000)] := by
  refine ⟨by decide, ?_⟩
  intro h
  obtain ⟨old, _, hget⟩ := h.last targetDevId (by decide)
  have hread : (Arch.core.targetClass 32).getValue
      ((Arch.core.targetClass 32).setAll ⟨0⟩ [(targetDevId, 0x100000000)]) targetDevId =
        .ok 0 := rfl
  have hlast : lastValue ((Arch.core.targetClass 32).successes ⟨0⟩
      [(targetDevId, 0x100000000)]) targetDevId = some 0x100000000 := rfl
  rw [hread, hlast] at hget
  injection hget with hget
  exact absurd hget (by simp)

end Classes
end Tdi.Data
