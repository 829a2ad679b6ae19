import Tdi.Json.Document
import Tdi.Json.FieldAgreement

/-!
# Listed defaults

A field node may list a default value next to the name of its type. The parser takes it
up by one of three conversions, which it chooses by the type; each conversion looks at
the kind of the JSON node and has an answer for nodes of other kinds.
-/
namespace Tdi.Json

open Cjson

/-- A default value in the slot in which fields of its type look for it. -/
inductive DefaultSlot where
  | integer (value : ℕ)
  | real (value : Option ℚ)
  | text (value : String)
  deriving DecidableEq

/-- The types whose values are unsigned integers. -/
def unsignedTypes : List String := ["bytes", "uint64", "uint32", "uint16", "uint8"]

/-- The slot of a type in a parsed field. -/
def FieldWidth.slot (field : FieldWidth) (typeStr : String) : DefaultSlot :=
  if typeStr = "string" then .text field.defaultStrValue
  else if typeStr = "float" then .real field.defaultFlValue
  else .integer field.defaultValue.toNat

section Defaults

variable {Node : Type} (lib : CjsonApi Node) (node : Cjson Node)

def listedDefault : Cjson Node := item lib (item lib node "type") "default_value"

/-- A default of the JSON kind that matches the type, with the value it stands for. -/
inductive StandsFor (typeStr : String) (width : ℕ) (d : Node) : DefaultSlot → Prop where
  | boolTrue : typeStr = "bool" → lib.type d = .true → StandsFor typeStr width d (.integer 1)
  | boolFalse : typeStr = "bool" → lib.type d = .false → StandsFor typeStr width d (.integer 0)
  | unsigned (n : ℕ) : typeStr ∈ unsignedTypes → lib.type d = .number → lib.valuedouble d = n →
      n < 2 ^ 53 → n < 2 ^ width → StandsFor typeStr width d (.integer n)
  | text : typeStr = "string" → lib.type d = .string →
      StandsFor typeStr width d (.text (lib.valuestring d))

/-- What a field without a listed default has in its slot. -/
def absentDefault (typeStr : String) : DefaultSlot :=
  if typeStr = "string" then .text "INVALID"
  else if typeStr = "float" then .real (some 0)
  else .integer 0

/-- Whatever the type, the integer slot is filled by `operator uint64_t`. -/
theorem defaultValue_parseFieldWidth :
    (parseFieldWidth lib node).defaultValue =
      if exists? (listedDefault lib node) then toUInt64 lib (listedDefault lib node) else 0 := by
  unfold parseFieldWidth
  simp only [apply_ite FieldWidth.defaultValue, ite_self]
  rfl

variable {node}

theorem defaultStrValue_parseFieldWidth (h : typeStr lib node = "string") :
    (parseFieldWidth lib node).defaultStrValue =
      if exists? (listedDefault lib node) then toStr lib (listedDefault lib node)
      else "INVALID" := by
  unfold typeStr at h
  unfold parseFieldWidth
  simp only [h, String.reduceEq, if_true, if_false]
  rfl

theorem defaultFlValue_parseFieldWidth (h : typeStr lib node = "float") :
    (parseFieldWidth lib node).defaultFlValue =
      some (if exists? (listedDefault lib node) then toFloat lib (listedDefault lib node)
        else 0) := by
  unfold typeStr at h
  unfold parseFieldWidth
  simp only [h, String.reduceEq, if_true, if_false]
  rfl

/-- A natural number below `2 ^ 53` survives the conversion. -/
theorem toUInt64_number {d : Node} {n : ℕ} (htype : lib.type d = .number)
    (hvalue : lib.valuedouble d = n) (hn : n < 2 ^ 53) :
    (toUInt64 lib (some d)).toNat = n := by
  have htrunc : truncate (n : ℚ) = n := by simp [truncate]
  have hrange : 0 ≤ truncate (n : ℚ) ∧ truncate (n : ℚ) < 2 ^ 64 := by
    rw [htrunc]
    omega
  have hcast : (UInt64.ofNat n).toNat = n := UInt64.toNat_ofNat_of_lt' (hn.trans (by decide))
  have hpatch : ¬(UInt64.ofNat n = 0 ∧ (n : ℚ) ≠ 0) := by
    rintro ⟨hzero, hne⟩
    rw [← UInt64.toNat_inj, hcast] at hzero
    exact hne (by exact_mod_cast hzero)
  unfold toUInt64
  simp only [htype, hvalue, if_true]
  rw [if_pos hrange, htrunc, Int.toNat_natCast, if_neg hpatch, hcast]

/-- A node that is no number converts to zero, a boolean among them. -/
theorem toUInt64_of_ne_number {d : Node} (h : lib.type d ≠ .number) :
    toUInt64 lib (some d) = 0 := by
  simp only [toUInt64, if_neg h]

/-- A listed default that stands for a value is in its slot after parsing, unless it is the
boolean `true`, which is there as 0. -/
theorem slot_of_standsFor {d : Node} (hd : listedDefault lib node = some d) {v : DefaultSlot}
    (hv : StandsFor lib (typeStr lib node) (parseFieldWidth lib node).width d v) :
    (parseFieldWidth lib node).slot (typeStr lib node) =
      if typeStr lib node = "bool" then .integer 0 else v := by
  have hint : (parseFieldWidth lib node).defaultValue = toUInt64 lib (some d) := by
    rw [defaultValue_parseFieldWidth, hd]
    rfl
  cases hv with
  | boolTrue htype hkind =>
    have hne : lib.type d ≠ .number := by simp [hkind]
    simp [FieldWidth.slot, htype, hint, toUInt64_of_ne_number lib hne]
  | boolFalse htype hkind =>
    have hne : lib.type d ≠ .number := by simp [hkind]
    simp [FieldWidth.slot, htype, hint, toUInt64_of_ne_number lib hne]
  | unsigned n htype hkind hvalue hn _ =>
    have hstr : typeStr lib node ≠ "string" := ne_of_mem_of_not_mem htype (by decide)
    have hfl : typeStr lib node ≠ "float" := ne_of_mem_of_not_mem htype (by decide)
    have hbool : typeStr lib node ≠ "bool" := ne_of_mem_of_not_mem htype (by decide)
    rw [FieldWidth.slot, if_neg hstr, if_neg hfl, if_neg hbool, hint,
      toUInt64_number lib hkind hvalue hn]
  | text htype hkind =>
    have hstr := defaultStrValue_parseFieldWidth lib htype
    rw [hd] at hstr
    simp [FieldWidth.slot, htype, hstr, exists?, toStr, hkind]

theorem slot_of_absent (hd : listedDefault lib node = none) :
    (parseFieldWidth lib node).slot (typeStr lib node) = absentDefault (typeStr lib node) := by
  have hint := defaultValue_parseFieldWidth lib node
  rw [hd] at hint
  unfold FieldWidth.slot absentDefault
  split
  · next hstr =>
    rw [defaultStrValue_parseFieldWidth lib hstr, hd]
    rfl
  · split
    · next hfl =>
      rw [defaultFlValue_parseFieldWidth lib hfl, hd]
      rfl
    · rw [hint]
      rfl

/-- The defaults of a field node survive parsing exactly when the node does not list `true`
for a boolean; a field without a listed default gets the one of its type. -/
theorem default_survives_iff (node : Cjson Node) :
    (∀ d v, listedDefault lib node = some d →
      StandsFor lib (typeStr lib node) (parseFieldWidth lib node).width d v →
      ((parseFieldWidth lib node).slot (typeStr lib node) = v ↔
        ¬(typeStr lib node = "bool" ∧ lib.type d = .true))) ∧
    (listedDefault lib node = none →
      (parseFieldWidth lib node).slot (typeStr lib node) = absentDefault (typeStr lib node)) := by
  refine ⟨?_, slot_of_absent lib⟩
  intro d v hd hv
  rw [slot_of_standsFor lib hd hv]
  cases hv with
  | boolTrue htype hkind => simp [htype, hkind]
  | boolFalse htype hkind => simp [htype, hkind]
  | unsigned n htype _ =>
    have hbool : typeStr lib node ≠ "bool" := ne_of_mem_of_not_mem htype (by decide)
    simp [hbool]
  | text htype hkind => simp [htype, hkind]

/-- A field node with a type and a default. -/
def fieldWithDefault (typeStr : String) (d : Document) : Document :=
  .object [("type", .object [("type", .string typeStr), ("default_value", d)])]

theorem default_survives_seven :
    (parseFieldWidth Document.api (some (fieldWithDefault "uint8" (.number 7)))).slot "uint8" =
      .integer 7 := by
  have hlisted : listedDefault Document.api (some (fieldWithDefault "uint8" (.number 7))) =
      some (.number 7) := rfl
  have hstands : StandsFor Document.api "uint8" 8 (.number 7) (.integer 7) :=
    .unsigned 7 (by decide) rfl rfl (by decide) (by decide)
  exact ((default_survives_iff Document.api (some (fieldWithDefault "uint8" (.number 7)))).1
    _ _ hlisted hstands).mpr (by simp [Document.api, Document.type])

/-- The default `true` of a boolean field is parsed as 0. -/
theorem default_true_lost :
    StandsFor Document.api "bool" 1 (.bool true) (.integer 1) ∧
      (parseFieldWidth Document.api (some (fieldWithDefault "bool" (.bool true)))).slot "bool" =
        .integer 0 ∧
      (parseFieldWidth Document.api (some (fieldWithDefault "bool" (.bool true)))).slot "bool" ≠
        .integer 1 := by
  have hlisted : listedDefault Document.api (some (fieldWithDefault "bool" (.bool true))) =
      some (.bool true) := rfl
  have hstands : StandsFor Document.api "bool" 1 (.bool true) (.integer 1) := .boolTrue rfl rfl
  have hslot : (parseFieldWidth Document.api (some (fieldWithDefault "bool" (.bool true)))).slot
      "bool" = .integer 0 := slot_of_standsFor Document.api hlisted hstands
  refine ⟨hstands, hslot, ?_⟩
  rw [hslot]
  decide

end Defaults
end Tdi.Json
