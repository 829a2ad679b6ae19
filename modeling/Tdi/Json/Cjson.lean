import Tdi.Defs

/-!
# The JSON wrapper

`Cjson` wraps a pointer into a parsed JSON document. The document itself is held
by the cJSON library, which is not part of the repository, so its entry points
are a parameter here. The wrapper's own behaviour on null pointers and on nodes
of an unexpected kind is modelled in full.
-/
namespace Tdi.Json

inductive NodeType where
  | false
  | true
  | null
  | number
  | string
  | array
  | object
  deriving DecidableEq, Repr

/-- The cJSON library as the wrapper sees it, and the results of the floating
point conversions that C++ leaves to the platform. A null pointer is `none`. -/
structure CjsonApi (Node : Type) where
  getObjectItem : Option Node → String → Option Node
  getArraySize : Option Node → ℕ
  getArrayItem : Option Node → ℕ → Option Node
  type : Node → NodeType
  valuestring : Node → String
  valuedouble : Node → ℚ
  -- integer casts of a double outside the target's range are undefined in C++
  outOfRange32 : ℚ → UInt32
  outOfRange64 : ℚ → UInt64
  roundToFloat : ℚ → ℚ

/-- Array access follows the document: the items of an array are the ones below
its size, and there is nothing behind a null pointer. -/
structure CjsonApi.Lawful {Node : Type} (lib : CjsonApi Node) : Prop where
  getArrayItem_isSome : ∀ n i, (lib.getArrayItem (some n) i).isSome = true ↔
    i < lib.getArraySize (some n)
  getObjectItem_none : ∀ key, lib.getObjectItem none key = none

/-- A pointer into a document; `none` is the null pointer of a missing node. -/
abbrev Cjson (Node : Type) := Option Node

namespace Cjson

variable {Node : Type} (lib : CjsonApi Node) (c : Cjson Node)

def exists? : Bool := c.isSome

def item (key : String) : Cjson Node := lib.getObjectItem c key

def itemAt (index : ℕ) : Cjson Node := lib.getArrayItem c index

def arraySize : ℕ := lib.getArraySize c

def getCjsonChildVec : List (Cjson Node) :=
  if exists? c then (List.range (arraySize lib c)).map (itemAt lib c) else []

def truncate (q : ℚ) : ℤ := if 0 ≤ q then ⌊q⌋ else ⌈q⌉

/-- `operator unsigned int`: a nonzero number that converts to zero becomes -1. -/
def toUnsignedInt : UInt32 :=
  match c with
  | some node =>
    if lib.type node = .number then
      let value := lib.valuedouble node
      let retVal :=
        if 0 ≤ truncate value ∧ truncate value < 2 ^ 32 then UInt32.ofNat (truncate value).toNat
        else lib.outOfRange32 value
      if retVal = 0 ∧ value ≠ 0 then UInt32.ofNat (2 ^ 32 - 1) else retVal
    else 0
  | none => 0

def toUInt64 : UInt64 :=
  match c with
  | some node =>
    if lib.type node = .number then
      let value := lib.valuedouble node
      let retVal :=
        if 0 ≤ truncate value ∧ truncate value < 2 ^ 64 then UInt64.ofNat (truncate value).toNat
        else lib.outOfRange64 value
      if retVal = 0 ∧ value ≠ 0 then UInt64.ofNat (2 ^ 64 - 1) else retVal
    else 0
  | none => 0

def toFloat : ℚ :=
  match c with
  | some node =>
    if lib.type node = .number then
      let retVal := lib.roundToFloat (lib.valuedouble node)
      if retVal = 0 ∧ lib.valuedouble node ≠ 0 then -1 else retVal
    else 0
  | none => 0

def toStr : String :=
  match c with
  | some node => if lib.type node = .string then lib.valuestring node else ""
  | none => ""

/-- `operator bool`: any node that is not `false` counts as true. -/
def toBool : Bool :=
  match c with
  | some node => if lib.type node = .false then false else true
  | none => false

def getCjsonChildStringVec : List String := (getCjsonChildVec lib c).map (toStr lib)

@[simp] theorem getCjsonChildVec_none : getCjsonChildVec lib none = [] := rfl

@[simp] theorem toUnsignedInt_none : toUnsignedInt lib none = 0 := rfl

theorem length_getCjsonChildVec (h : exists? c = true) :
    (getCjsonChildVec lib c).length = arraySize lib c := by
  simp [getCjsonChildVec, h]

theorem getElem?_getCjsonChildVec (h : exists? c = true) {i : ℕ} (hi : i < arraySize lib c) :
    (getCjsonChildVec lib c)[i]? = some (itemAt lib c i) := by
  simp [getCjsonChildVec, h, hi]

variable {lib c}

theorem itemAt_exists (hlib : lib.Lawful) (h : exists? c = true) {i : ℕ} :
    exists? (itemAt lib c i) = true ↔ i < arraySize lib c := by
  obtain ⟨node, rfl⟩ := Option.isSome_iff_exists.mp h
  exact hlib.getArrayItem_isSome node i

end Cjson
end Tdi.Json
