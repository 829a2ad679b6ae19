import Tdi.Defs

/-!
# Scalar key operands in the C API

A setter wraps its operands in an object of a class template and hands it to
`TableKey::setValue`; a getter has one filled in. Two types decide what such an object
is: the template argument, in which the operands are kept, and the type of the
constructor's parameter. The second is deduced from the argument of the call, so that
`size_` says nothing about the first.
-/
namespace Tdi.CFrontend

def matchTypeExact : EnumCode := matchTypeCore
def matchTypeTernary : EnumCode := 1
def matchTypeLpm : EnumCode := 2
def matchTypeRange : EnumCode := 3

/-- `TDI_PSA_MATCH_TYPE_OPTIONAL`, which is `TDI_MATCH_TYPE_ARCH` -/
def matchTypeOptional : EnumCode := 8

/-- The integer types with which the class templates are instantiated. -/
inductive Scalar where
  | uint8
  | uint64
  deriving DecidableEq

namespace Scalar

def sizeof : Scalar → ℕ
  | uint8 => 1
  | uint64 => 8

/-- Conversion to the type. -/
def narrow : Scalar → UInt64 → UInt64
  | uint8, value => value.toUInt8.toUInt64
  | uint64, value => value

theorem narrow_uint8_eq_self_iff {value : UInt64} : narrow uint8 value = value ↔ value < 256 := by
  have hsmall : (narrow uint8 value).toNat = value.toNat % 2 ^ 8 := by
    simp [narrow]
  rw [← UInt64.toNat_inj, hsmall, UInt64.lt_iff_toNat_lt]
  change _ ↔ value.toNat < 256
  omega

end Scalar

/-- The operands of the five match types. -/
inductive Operands where
  | exact (value : UInt64)
  | ternary (value mask : UInt64)
  | lpm (value : UInt64) (prefixLen : UInt16)
  | range (low high : UInt64)
  | optional (value : UInt64) (isValid : Bool)
  deriving DecidableEq

namespace Operands

def matchType : Operands → EnumCode
  | exact _ => matchTypeExact
  | ternary _ _ => matchTypeTernary
  | lpm _ _ => matchTypeLpm
  | range _ _ => matchTypeRange
  | optional _ _ => matchTypeOptional

/-- The operands as members of the template's type. Prefix lengths and flags have types of
their own. -/
def narrow (t : Scalar) : Operands → Operands
  | exact value => exact (t.narrow value)
  | ternary value mask => ternary (t.narrow value) (t.narrow mask)
  | lpm value prefixLen => lpm (t.narrow value) prefixLen
  | range low high => range (t.narrow low) (t.narrow high)
  | optional value isValid => optional (t.narrow value) isValid

@[simp] theorem narrow_uint64 (ops : Operands) : ops.narrow .uint64 = ops := by
  cases ops <;> rfl

@[simp] theorem matchType_narrow (t : Scalar) (ops : Operands) :
    (ops.narrow t).matchType = ops.matchType := by
  cases ops <;> rfl

end Operands

/-- An object of one of the classes derived from `KeyFieldValue`, with the template argument
and the public members. -/
structure KeyFieldValue where
  matchType : EnumCode
  isPointer : Bool
  size : ℕ
  element : Scalar
  operands : Operands
  deriving DecidableEq

section Constructors

/-- The constructors for values that are no pointers: `t` is the template argument and `u`
the deduced type of the parameter. -/
def KeyFieldValue.scalar (t u : Scalar) (ops : Operands) : KeyFieldValue where
  matchType := ops.matchType
  isPointer := false
  size := u.sizeof
  element := t
  operands := ops.narrow t

variable (t u : Scalar)

def keyFieldValueExact (value : UInt64) : KeyFieldValue := .scalar t u (.exact value)

def keyFieldValueTernary (value mask : UInt64) : KeyFieldValue :=
  .scalar t u (.ternary value mask)

def keyFieldValueLpm (value : UInt64) (prefixLen : UInt16) : KeyFieldValue :=
  .scalar t u (.lpm value prefixLen)

def keyFieldValueRange (low high : UInt64) : KeyFieldValue := .scalar t u (.range low high)

def keyFieldValueOptional (value : UInt64) (isValid : Bool) : KeyFieldValue :=
  .scalar t u (.optional value isValid)

end Constructors

/-- `TableKey`, whose virtual functions a target overrides. `getValue` gets the caller's
object and leaves its operands. -/
structure TableKey (Key : Type) where
  setValue : Key → TdiId → KeyFieldValue → TdiStatus × Key
  getValue : Key → TdiId → KeyFieldValue → TdiStatus × Operands

section Api

variable {Key : Type} (api : TableKey Key) (key : Key) (fieldId : TdiId)

def tdiKeyFieldSetValue (value : UInt64) : TdiStatus × Key :=
  api.setValue key fieldId (keyFieldValueExact .uint64 .uint64 value)

def tdiKeyFieldSetValueAndMask (value mask : UInt64) : TdiStatus × Key :=
  api.setValue key fieldId (keyFieldValueTernary .uint64 .uint64 value mask)

def tdiKeyFieldSetValueRange (first last : UInt64) : TdiStatus × Key :=
  api.setValue key fieldId (keyFieldValueRange .uint64 .uint64 first last)

def tdiKeyFieldSetValueLpm (value1 : UInt64) (pLength : UInt16) : TdiStatus × Key :=
  api.setValue key fieldId (keyFieldValueLpm .uint64 .uint64 value1 pLength)

/-- The template argument is `const uint8_t`. -/
def tdiKeyFieldSetValueOptional (value1 : UInt64) (isValid : Bool) : TdiStatus × Key :=
  api.setValue key fieldId (keyFieldValueOptional .uint8 .uint64 value1 isValid)

/-! A getter returns what it leaves in its out parameters, which are read before. -/

def tdiKeyFieldGetValue (value : UInt64) : TdiStatus × Operands :=
  api.getValue key fieldId (keyFieldValueExact .uint64 .uint64 value)

def tdiKeyFieldGetValueAndMask (value1 value2 : UInt64) : TdiStatus × Operands :=
  api.getValue key fieldId (keyFieldValueTernary .uint64 .uint64 value1 value2)

def tdiKeyFieldGetValueRange (first last : UInt64) : TdiStatus × Operands :=
  api.getValue key fieldId (keyFieldValueRange .uint64 .uint64 first last)

def tdiKeyFieldGetValueLpm (value : UInt64) (pLength : UInt16) : TdiStatus × Operands :=
  api.getValue key fieldId (keyFieldValueLpm .uint64 .uint64 value pLength)

/-- `long unsigned int` has 64 bits. -/
def tdiKeyFieldGetValueOptional (value : UInt64) (isValid : Bool) : TdiStatus × Operands :=
  api.getValue key fieldId (keyFieldValueOptional .uint64 .uint64 value isValid)

/-- The setter of the match type. -/
def setOperands : Operands → TdiStatus × Key
  | .exact value => tdiKeyFieldSetValue api key fieldId value
  | .ternary value mask => tdiKeyFieldSetValueAndMask api key fieldId value mask
  | .lpm value prefixLen => tdiKeyFieldSetValueLpm api key fieldId value prefixLen
  | .range low high => tdiKeyFieldSetValueRange api key fieldId low high
  | .optional value isValid => tdiKeyFieldSetValueOptional api key fieldId value isValid

/-- The getter of the match type, with the initial contents of its out parameters. -/
def getOperands : Operands → TdiStatus × Operands
  | .exact value => tdiKeyFieldGetValue api key fieldId value
  | .ternary value mask => tdiKeyFieldGetValueAndMask api key fieldId value mask
  | .lpm value prefixLen => tdiKeyFieldGetValueLpm api key fieldId value prefixLen
  | .range low high => tdiKeyFieldGetValueRange api key fieldId low high
  | .optional value isValid => tdiKeyFieldGetValueOptional api key fieldId value isValid

end Api

/-- The template argument with which a setter instantiates the class of its match type. -/
def setElement : Operands → Scalar
  | .optional _ _ => .uint8
  | _ => .uint64

theorem setOperands_eq {Key : Type} (api : TableKey Key) (key : Key) (fieldId : TdiId)
    (ops : Operands) :
    setOperands api key fieldId ops =
      api.setValue key fieldId (.scalar (setElement ops) .uint64 ops) := by
  cases ops <;> rfl

theorem getOperands_eq {Key : Type} (api : TableKey Key) (key : Key) (fieldId : TdiId)
    (out : Operands) :
    getOperands api key fieldId out =
      api.getValue key fieldId (.scalar .uint64 .uint64 out) := by
  cases out <;> rfl

/-- The object says what the operands are: its match type, no pointer, eight bytes, and the
operands bit for bit. -/
structure KeyFieldValue.Carries (v : KeyFieldValue) (ops : Operands) : Prop where
  matchType : v.matchType = ops.matchType
  isPointer : v.isPointer = false
  size : v.size = 8
  operands : v.operands = ops

/-- A key that stores what it is given and fills an object of the same match type with it. -/
structure TableKey.Stores {Key : Type} (api : TableKey Key) : Prop where
  status_setValue : ∀ key fieldId v, (api.setValue key fieldId v).1 = .success
  getValue_setValue : ∀ key fieldId v out, out.matchType = v.matchType →
    out.isPointer = v.isPointer →
    api.getValue (api.setValue key fieldId v).2 fieldId out =
      (.success, v.operands.narrow out.element)

/-- What an optional value has to be for a `uint8_t`. -/
def Operands.Fits : Operands → Prop
  | .optional value _ => value < 256
  | _ => True

theorem narrow_setElement_iff (ops : Operands) : ops.narrow (setElement ops) = ops ↔ ops.Fits := by
  cases ops with
  | optional value isValid =>
    simp only [setElement, Operands.narrow, Operands.Fits, Operands.optional.injEq, and_true]
    exact Scalar.narrow_uint8_eq_self_iff
  | _ => exact iff_of_true (Operands.narrow_uint64 _) trivial

theorem carries_scalar_iff (ops : Operands) :
    (KeyFieldValue.scalar (setElement ops) .uint64 ops).Carries ops ↔ ops.Fits := by
  rw [← narrow_setElement_iff]
  constructor
  · intro h
    exact h.operands
  · intro h
    exact ⟨rfl, rfl, rfl, h⟩

theorem getOperands_setOperands {Key : Type} {api : TableKey Key} (h : api.Stores) (key : Key)
    (fieldId : TdiId) {ops out : Operands} (hout : out.matchType = ops.matchType) :
    getOperands api (setOperands api key fieldId ops).2 fieldId out =
      (.success, ops.narrow (setElement ops)) := by
  have hget := h.getValue_setValue key fieldId (.scalar (setElement ops) .uint64 ops)
    (.scalar .uint64 .uint64 out) hout rfl
  rw [getOperands_eq, setOperands_eq, hget]
  exact congrArg (Prod.mk _) (Operands.narrow_uint64 _)

/-- Scalar operands reach `setValue` unchanged, and come back through the getter, exactly when
they are not an optional value of more than eight bits. -/
theorem operands_intact_iff (fieldId : TdiId) (ops : Operands) :
    ((∃ v : KeyFieldValue, v.Carries ops ∧ ∀ (Key : Type) (api : TableKey Key) (key : Key),
        setOperands api key fieldId ops = api.setValue key fieldId v) ∧
      ∀ (Key : Type) (api : TableKey Key) (key : Key) (out : Operands), api.Stores →
        out.matchType = ops.matchType →
        getOperands api (setOperands api key fieldId ops).2 fieldId out = (.success, ops)) ↔
      ops.Fits := by
  constructor
  · intro ⟨⟨v, hcarries, hpassed⟩, _⟩
    -- a key that is the object it was given last shows which object is passed
    have hv := congrArg Prod.snd (hpassed KeyFieldValue
      ⟨fun _ _ v => (.success, v), fun key _ _ => (.success, key.operands)⟩ v)
    have hv' : .scalar (setElement ops) .uint64 ops = v := by rwa [setOperands_eq] at hv
    rw [← carries_scalar_iff, hv']
    exact hcarries
  · intro hfits
    constructor
    · refine ⟨_, (carries_scalar_iff ops).mpr hfits, ?_⟩
      intro Key api key
      exact setOperands_eq api key fieldId ops
    · intro Key api key out hstores hout
      rw [getOperands_setOperands hstores key fieldId hout, (narrow_setElement_iff ops).mpr hfits]

/-- A key that is the operands of its fields. -/
def mapKey : TableKey (TdiId → Operands) where
  setValue key fieldId v := (.success, Function.update key fieldId v.operands)
  getValue key fieldId out := (.success, (key fieldId).narrow out.element)

theorem mapKey_stores : mapKey.Stores where
  status_setValue _ _ _ := rfl
  getValue_setValue key fieldId v out _ _ := by simp [mapKey]

/-- The optional value 300 reaches the key as 44 and comes back as 44. -/
theorem optional_value_truncated :
    ¬∀ out : Operands, out.matchType = matchTypeOptional →
      getOperands mapKey (setOperands mapKey (fun _ => .exact 0) 7 (.optional 300 true)).2 7 out =
        (.success, .optional 300 true) := by
  intro h
  have hget := h (.optional 0 false) rfl
  have hstored : getOperands mapKey (setOperands mapKey (fun _ => .exact 0) 7
      (.optional 300 true)).2 7 (.optional 0 false) = (.success, .optional 44 true) :=
    getOperands_setOperands mapKey_stores _ 7 rfl
  have hsame := hstored.symm.trans hget
  revert hsame
  decide

end Tdi.CFrontend
