import Tdi.Json.Document
import Tdi.Json.InfoParser

/-!
# One field specification, two parsers

A key field and a data field are specified alike, and both parsers read width,
type, choices and defaults through `parseFieldWidth`. Only the key field's
constructor is told whether the field is wider than a 64-bit word. Each parser
passes an uninitialized float of its own for the float default, and a field of
another type keeps what that float held.
-/
namespace Tdi.Json

open Foundation Cjson

/-- What `defaultFlValueGet` returns where the parser's `default_fl_value` held `contents`
before `parseFieldWidth` wrote it, or did not. -/
def defaultFlValueGet {Fl : Type} (float : ℚ → Fl) (contents : Fl) (written : Option ℚ) : Fl :=
  (written.map float).getD contents

/-- A key field and a data field that are the same reading of a specification, where the
two parsers' float variables held `keyFloat` and `dataFloat`. -/
structure ReadAlike {Fl : Type} (float : ℚ → Fl) (keyFloat dataFloat : Fl)
    (key : KeyFieldInfo) (data : DataFieldInfo) : Prop where
  fieldId : key.fieldId = data.fieldId
  name : key.name = data.name
  sizeBits : key.sizeBits = data.sizeBits
  dataType : key.dataType = data.dataType
  enumChoices : key.enumChoices = data.enumChoices
  annotations : key.annotations = data.annotations
  defaultValue : key.defaultValue = data.defaultValue
  defaultFlValue : defaultFlValueGet float keyFloat key.defaultFlValue =
    defaultFlValueGet float dataFloat data.defaultFlValue
  defaultStrValue : key.defaultStrValue = data.defaultStrValue

/-- A field is of pointer type exactly when it is wider than 64 bits. -/
def PtrRule (sizeBits : ℕ) (isPtr : Bool) : Prop := isPtr = true ↔ 64 < sizeBits

section

variable {Node : Type} (lib : CjsonApi Node) (mapper : TdiInfoMapper) (node : Cjson Node)

def typeStr : String := toStr lib (item lib (item lib node "type") "type")

def listedWidth : UInt32 := toUnsignedInt lib (item lib (item lib node "type") "width")

/-- Only byte streams and strings have the width that the schema lists. -/
theorem width_parseFieldWidth_eq :
    (parseFieldWidth lib node).width = (listedWidth lib node).toNat ∧
        (typeStr lib node = "bytes" ∨ typeStr lib node = "string") ∨
      (parseFieldWidth lib node).width ≤ 64 ∧
        typeStr lib node ≠ "bytes" ∧ typeStr lib node ≠ "string" := by
  have hstring : (if exists? (item lib (item lib node "type") "width") then
      (listedWidth lib node).toNat else 0) = (listedWidth lib node).toNat := by
    split_ifs with h
    · rfl
    · have hmissing : item lib (item lib node "type") "width" = none := by
        simpa [exists?] using h
      simp [listedWidth, hmissing]
  unfold parseFieldWidth
  simp only [apply_ite FieldWidth.width]
  rw [← typeStr, ← listedWidth, hstring]
  by_cases hb : typeStr lib node = "bytes"
  · exact .inl ⟨if_pos hb, .inl hb⟩
  · by_cases hs : typeStr lib node = "string"
    · refine .inl ⟨?_, .inr hs⟩
      have hne : ∀ s, "string" ≠ s → typeStr lib node ≠ s := fun s h => hs ▸ h
      rw [if_neg hb, if_neg (hne "uint64" (by decide)), if_neg (hne "uint32" (by decide)),
        if_neg (hne "uint16" (by decide)), if_neg (hne "uint8" (by decide)),
        if_neg (hne "int64" (by decide)), if_neg (hne "int32" (by decide)),
        if_neg (hne "int16" (by decide)), if_neg (hne "int8" (by decide)),
        if_neg (hne "bool" (by decide)), if_neg (hne "float" (by decide)), if_pos hs]
    · have hite : ∀ (c : Prop) [Decidable c] (a b : ℕ), a ≤ 64 → b ≤ 64 →
          (if c then a else b) ≤ 64 := by
        intro c _ a b ha hb
        split_ifs <;> assumption
      rw [if_neg hb, if_neg hs]
      refine .inr ⟨?_, hb, hs⟩
      repeat' first | apply hite | norm_num

theorem width_parseFieldWidth_gt_iff :
    64 < (parseFieldWidth lib node).width ↔
      (typeStr lib node = "bytes" ∨ typeStr lib node = "string") ∧
        64 < (listedWidth lib node).toNat := by
  rcases width_parseFieldWidth_eq lib node with ⟨hw, htype⟩ | ⟨hw, hb, hs⟩
  · rw [hw]
    exact ⟨fun h => ⟨htype, h⟩, fun h => h.2⟩
  · simp only [hb, hs, or_self, false_and, iff_false]
    omega

theorem width_parseFieldWidth_lt : (parseFieldWidth lib node).width < 2 ^ 32 := by
  have hlisted : (listedWidth lib node).toNat < 2 ^ 32 := (listedWidth lib node).toNat_lt
  rcases width_parseFieldWidth_eq lib node with ⟨hw, -⟩ | ⟨hw, -⟩ <;> omega

/-- The other branches leave the caller's variable as it is, which is uninitialized. -/
theorem defaultFlValue_isSome_iff :
    (parseFieldWidth lib node).defaultFlValue.isSome = true ↔ typeStr lib node = "float" := by
  unfold parseFieldWidth
  simp only [apply_ite FieldWidth.defaultFlValue]
  rw [← typeStr]
  by_cases hf : typeStr lib node = "float"
  · simp [hf]
  · simp [hf]

variable {lib node} {Fl : Type} (float : ℚ → Fl) (keyFloat dataFloat : Fl)

theorem defaultFlValueGet_parse_eq_iff :
    defaultFlValueGet float keyFloat (parseFieldWidth lib node).defaultFlValue =
        defaultFlValueGet float dataFloat (parseFieldWidth lib node).defaultFlValue ↔
      typeStr lib node = "float" ∨ keyFloat = dataFloat := by
  rw [← defaultFlValue_isSome_iff]
  cases (parseFieldWidth lib node).defaultFlValue <;> simp [defaultFlValueGet]

/-- All but the float default is read alike in every field. -/
theorem readAlike_parse_iff (hsingle : exists? (item lib node "singleton") = false)
    (honeof : exists? (item lib node "oneof") = false) (oneofIndex : ℕ) :
    ReadAlike float keyFloat dataFloat (parseKeyField lib mapper node)
        (parseDataField lib node oneofIndex) ↔
      typeStr lib node = "float" ∨ keyFloat = dataFloat := by
  have hnode : dataFieldNode lib node oneofIndex = node := by
    simp [dataFieldNode, unwrapSingleton, hsingle, honeof]
  rw [← defaultFlValueGet_parse_eq_iff float keyFloat dataFloat]
  simp only [parseKeyField, parseDataField, hnode]
  exact ⟨fun h => h.defaultFlValue, fun h => ⟨rfl, rfl, rfl, rfl, rfl, rfl, rfl, h, rfl⟩⟩

theorem ptrRule_parseKeyField : PtrRule (parseKeyField lib mapper node).sizeBits
    (parseKeyField lib mapper node).isPtr := by
  simp [PtrRule, parseKeyField]

theorem ptrRule_parseDataField_iff (hsingle : exists? (item lib node "singleton") = false)
    (honeof : exists? (item lib node "oneof") = false) (oneofIndex : ℕ) :
    PtrRule (parseDataField lib node oneofIndex).sizeBits
        (parseDataField lib node oneofIndex).isPtr ↔
      ¬ ((typeStr lib node = "bytes" ∨ typeStr lib node = "string") ∧
        64 < (listedWidth lib node).toNat) := by
  have hnode : dataFieldNode lib node oneofIndex = node := by
    simp [dataFieldNode, unwrapSingleton, hsingle, honeof]
  rw [← width_parseFieldWidth_gt_iff]
  simp [PtrRule, parseDataField, hnode]

/-- The two parsers agree on every float field, and on every other field where their two
uninitialized floats happen to be equal; both keep the pointer rule on the fields that fit
into 64 bits. -/
theorem parseField_agree_iff (hsingle : exists? (item lib node "singleton") = false)
    (honeof : exists? (item lib node "oneof") = false) (oneofIndex : ℕ) :
    (ReadAlike float keyFloat dataFloat (parseKeyField lib mapper node)
        (parseDataField lib node oneofIndex) ∧
      PtrRule (parseKeyField lib mapper node).sizeBits (parseKeyField lib mapper node).isPtr ∧
      PtrRule (parseDataField lib node oneofIndex).sizeBits
        (parseDataField lib node oneofIndex).isPtr) ↔
      (typeStr lib node = "float" ∨ keyFloat = dataFloat) ∧
        ¬ ((typeStr lib node = "bytes" ∨ typeStr lib node = "string") ∧
          64 < (listedWidth lib node).toNat) := by
  rw [readAlike_parse_iff mapper float keyFloat dataFloat hsingle honeof oneofIndex,
    ptrRule_parseDataField_iff hsingle honeof oneofIndex]
  exact and_congr_right' (and_iff_right (ptrRule_parseKeyField mapper))

end

namespace Document

/-- A field of 128 bits, such as an IPv6 address. -/
def wideField : Document :=
  named 5 "dst_addr" [("match_type", .string "Exact"),
    ("type", .object [("type", .string "bytes"), ("width", .number 128)])]

def narrowField : Document :=
  named 5 "port" [("type", .object [("type", .string "bytes"), ("width", .number 9)])]

end Document

section

open Document

theorem parseField_agree_iff_narrowField :
    ReadAlike id 7 7 (parseKeyField api .empty (some narrowField))
        (parseDataField api (some narrowField) 0) ∧
      PtrRule 9 (parseDataField api (some narrowField) 0).isPtr := by
  have hsingle : exists? (item api (some narrowField) "singleton") = false := by decide
  have honeof : exists? (item api (some narrowField) "oneof") = false := by decide
  obtain ⟨halike, -, hdata⟩ :=
    (parseField_agree_iff .empty id 7 7 hsingle honeof 0).mpr (by decide)
  exact ⟨halike, hdata⟩

/-- The pointer rule fails on a wide field also where the two floats are equal, and the
float defaults of a narrow field differ where they are not. -/
theorem wideField_pointers_differ :
    (¬ ∀ (contents : ℚ) (mapper : TdiInfoMapper) (node : Cjson Document) (oneofIndex : ℕ),
      exists? (item api node "singleton") = false → exists? (item api node "oneof") = false →
      ReadAlike id contents contents (parseKeyField api mapper node)
          (parseDataField api node oneofIndex) ∧
        PtrRule (parseKeyField api mapper node).sizeBits (parseKeyField api mapper node).isPtr ∧
        PtrRule (parseDataField api node oneofIndex).sizeBits
          (parseDataField api node oneofIndex).isPtr) ∧
      ¬ ReadAlike id 0 1 (parseKeyField api .empty (some narrowField))
        (parseDataField api (some narrowField) 0) := by
  constructor
  · intro h
    obtain ⟨-, -, hdata⟩ := h 0 .empty (some wideField) 0 (by decide) (by decide)
    have hwidth : (parseDataField api (some wideField) 0).sizeBits = 128 := by decide
    rw [PtrRule, hwidth] at hdata
    exact absurd (hdata.mpr (by decide)) (by decide)
  · intro h
    have hfloat := h.defaultFlValue
    have hkey : (parseKeyField api .empty (some narrowField)).defaultFlValue = none := by decide
    have hdata : (parseDataField api (some narrowField) 0).defaultFlValue = none := by decide
    rw [hkey, hdata] at hfloat
    exact absurd hfloat (by decide)

end
end Tdi.Json
