import Tdi.Cli.Field

/-!
# Reading back what was shown

For each kind of field, the value that was read from the driver against the value
that `parse_input` makes of its dumped form. Two values are the same when Python's
`==` says so, a list and a tuple with the same elements counted as equal: a `BOOL`
comes back as an integer and the two parts of a key as a list.
-/
namespace Tdi.Cli

open Foundation

namespace Value

/-- The integer a double is equal to. -/
def integral? (x : Float) : Option ℤ :=
  (truncate? x).bind fun i =>
    if floatOfInt i = some x ∨ i = 0 ∧ isZero x then some i else Option.none

mutual

/-- The value up to `True == 1`, `False == 0` and the kind of sequence. A double that is an
integer is equal to that integer. -/
def canon : Value → Value
  | .none => .none
  | .bool b => .int b.toNat
  | .int i => .int i
  | .float x => (integral? x).elim (.float x) .int
  | .str s => .str s
  | .list items => .list (canons items)
  | .tuple items => .list (canons items)
  | .dict members => .dict (canonMembers members)

def canons : List Value → List Value
  | [] => []
  | value :: values => value.canon :: canons values

def canonMembers : List (String × Value) → List (String × Value)
  | [] => []
  | (key, value) :: members => (key, value.canon) :: canonMembers members

end

theorem canons_eq_map (values : List Value) : canons values = values.map canon := by
  induction values with
  | nil => rfl
  | cons value values ih => rw [canons, ih, List.map_cons]

@[simp] theorem canon_bool (b : Bool) : (Value.bool b).canon = .int b.toNat := rfl
@[simp] theorem canon_int (i : ℤ) : (Value.int i).canon = .int i := rfl
@[simp] theorem canon_str (s : String) : (Value.str s).canon = .str s := rfl

@[simp] theorem canon_list (values : List Value) :
    (Value.list values).canon = .list (values.map canon) := by
  rw [canon, canons_eq_map]

@[simp] theorem canon_tuple (values : List Value) :
    (Value.tuple values).canon = .list (values.map canon) := by
  rw [canon, canons_eq_map]

end Value

def IsAscii (s : String) : Prop := ∀ c ∈ s.toList, c.toNat < 128

instance (s : String) : Decidable (IsAscii s) := inferInstanceAs (Decidable (∀ c ∈ s.toList, _))

theorem encodeAscii_of_isAscii {s : String} (h : IsAscii s) : encodeAscii s = .ok s := if_pos h

/-- An unsigned value that fits a field. -/
def InRange (size : ℕ) (i : ℤ) : Prop := 0 ≤ i ∧ i < 2 ^ size

/-- What `_get_key_fields` reads for a key field when the driver reports no error. -/
inductive KeyReadBack (f : Field) : Value → Prop where
  | exactString {s : String} (hm : f.matchType = .exact) (hd : f.dataType = .string)
      (hs : IsAscii s) : KeyReadBack f (.str s)
  | exactInt {i : ℤ} (hm : f.matchType = .exact) (hd : f.dataType ≠ .string)
      (hi : InRange f.size i) : KeyReadBack f (.int i)
  | ternary {value mask : ℤ} (hm : f.matchType = .ternary) (hv : InRange f.size value)
      (hmask : InRange f.size mask) : KeyReadBack f (.tuple [.int value, .int mask])
  | range {start stop : ℤ} (hm : f.matchType = .range) (hstart : InRange f.size start)
      (hstop : InRange f.size stop) : KeyReadBack f (.tuple [.int start, .int stop])
  | lpm {value : ℤ} {len : ℕ} (hm : f.matchType = .lpm) (hv : InRange f.size value)
      (hlen : len ≤ f.size) : KeyReadBack f (.tuple [.int value, .int len])
  | optional {value : ℤ} {isValid : Bool} (hm : f.matchType = .optional)
      (hv : InRange f.size value) : KeyReadBack f (.tuple [.int value, .bool isValid])

/-- What `_process_data_fields` reads for a data field when the driver reports no error. -/
inductive DataReadBack (f : Field) : Value → Prop where
  | uint64 {i : ℤ} (hd : f.dataType = .uint64) (hi : InRange f.size i) : DataReadBack f (.int i)
  | byteStream {i : ℤ} (hd : f.dataType = .byteStream) (hi : InRange f.size i) :
      DataReadBack f (.int i)
  | int64 {i : ℤ} (hd : f.dataType = .int64) (hi : i < 2 ^ f.size) : DataReadBack f (.int i)
  | bool {b : Bool} (hd : f.dataType = .bool) (hb : InRange f.size b.toNat) :
      DataReadBack f (.bool b)
  | string {s : String} (hd : f.dataType = .string) (hs : IsAscii s) : DataReadBack f (.str s)
  | intArr {elements : List ℕ} (hd : f.dataType = .intArr) (he : ∀ n ∈ elements, n < 2 ^ 32) :
      DataReadBack f (.list (elements.map fun n : ℕ => .int n))
  | boolArr {elements : List Bool} (hd : f.dataType = .boolArr) :
      DataReadBack f (.list (elements.map .bool))
  | strArr {elements : List String} (hd : f.dataType = .strArr)
      (he : ∀ s ∈ elements, IsAscii s) : DataReadBack f (.list (elements.map .str))

/-- An `EXACT` key is kept if `parse_input` knows its type and `int` does not rewrite it. -/
def KeyKept (f : Field) (value : Value) : Prop :=
  f.matchType = .exact →
    f.dataType = .uint64 ∨ f.dataType = .byteStream ∨
      f.dataType = .string ∧ ∀ s, value = .str s →
        intOfString s = none ∨ ∃ i : ℤ, s = toString i

theorem keyKept_of_ne {f : Field} (h : f.matchType ≠ .exact) (value : Value) : KeyKept f value :=
  fun hexact => absurd hexact h

/-- What `deparse_output` returns for a type without a branch. -/
def errorLetters : Value := .list (["E", "r", "r", "o", "r"].map .str)

def DataKept (f : Field) (value : Value) : Prop :=
  f.readOnly = false → f.dataType = .strArr → value = errorLetters

namespace Field

variable {x : Externs} {f : Field}

/-- Dump a value, pass it through a JSON text and parse it. -/
def reread (x : Externs) (f : Field) (value : Value) : Parsed := do
  let shown ← f.deparseOutput x value
  f.parseInput x shown.viaJson

theorem parseInput_eq_parseFlat (h : ¬ (f.category = .data ∧ f.dataType = .container))
    (value : Value) : f.parseInput x value = f.parseFlat x value := by
  cases value <;> simp [parseInput, h]

theorem shiftRight_not_pos {i : ℤ} {size : ℕ} (h : i < 2 ^ size) : ¬ i >>> size > 0 := by
  have hpos : (0 : ℤ) < ((2 ^ size : ℕ) : ℤ) := by positivity
  have hlt : i / ((2 ^ size : ℕ) : ℤ) < 1 := by
    rw [Int.ediv_lt_iff_lt_mul hpos]
    push_cast
    omega
  rw [Int.shiftRight_eq_div_pow]
  omega

theorem convertInt_of_lt {value : Value} {i : ℤ} (hvalue : intOfInput x value = some i)
    (hi : i < 2 ^ f.size) {maskType : Bool} (hmask : maskType = true → 0 ≤ i) :
    f.convertInt x value false maskType = .ok (true, .int i) := by
  have hwrap : ¬ (maskType = true ∧ i < 0) := by
    rintro ⟨hm, hneg⟩
    have hnonneg := hmask hm
    omega
  simp [convertInt, hvalue, hwrap, shiftRight_not_pos hi]

section Writable

variable (hw : f.readOnly = false)
include hw

theorem parseInt_int {i : ℤ} (hi : i < 2 ^ f.size) {maskType : Bool}
    (hmask : maskType = true → 0 ≤ i) :
    f.parseInt x (.int i) false maskType = .ok (true, .int i) := by
  have hconvert : f.convertInt x (.int i) false maskType = .ok (true, .int i) :=
    convertInt_of_lt rfl hi hmask
  simp [parseInt, hw, hconvert]

theorem parseInt_bool {b : Bool} (hb : (b.toNat : ℤ) < 2 ^ f.size) :
    f.parseInt x (.bool b) false false = .ok (true, .int b.toNat) := by
  have hconvert : f.convertInt x (.bool b) false false = .ok (true, .int b.toNat) :=
    convertInt_of_lt rfl hb (by simp)
  simp [parseInt, hw, hconvert]

theorem parseString_str (s : String) : f.parseString x (.str s) = .ok (true, .str s) := by
  simp [parseString, given, hw, Value.toStr]

theorem parseString_int (i : ℤ) : f.parseString x (.int i) = .ok (true, .str (toString i)) := by
  simp [parseString, given, hw, Value.toStr]

end Writable

section Keys

variable (hk : f.category = .key)
include hk

theorem parseInput_key (value : Value) : f.parseInput x value = f.parseFlat x value :=
  parseInput_eq_parseFlat (by simp [hk]) value

/-- `parse_input` knows three types of `EXACT` keys. -/
theorem reread_exactOther (hm : f.matchType = .exact) (hstring : f.dataType ≠ .string)
    (hd : ¬ (f.dataType = .uint64 ∨ f.dataType = .byteStream)) (i : ℤ) :
    f.reread x (.int i) = .error (.unsupportedKeyType f.name) := by
  have hflat : f.parseFlat x (.int i) = .error (.unsupportedKeyType f.name) := by
    unfold parseFlat
    cases hdt : f.dataType <;> simp_all
  simp [reread, deparseOutput, hk, hm, deparseInt, Value.toInt?, bind, Except.bind,
    parseInput_key hk, hflat]

variable (hw : f.readOnly = false)
include hw

/-- `int` rewrites a string it accepts. -/
theorem reread_exactString (hm : f.matchType = .exact) (hd : f.dataType = .string) (s : String) :
    f.reread x (.str s) = .ok (true, .str (((intOfString s).map toString).getD s)) := by
  cases hs : intOfString s with
  | none =>
    simp [reread, deparseOutput, hk, hm, deparseInt, Value.toInt?, hs, bind, Except.bind,
      parseInput_key hk, parseFlat, hd, parseString_str hw]
  | some i =>
    simp [reread, deparseOutput, hk, hm, deparseInt, Value.toInt?, hs, bind, Except.bind,
      parseInput_key hk, parseFlat, hd, parseString_int hw]

theorem reread_exactInt (hm : f.matchType = .exact)
    (hd : f.dataType = .uint64 ∨ f.dataType = .byteStream) {i : ℤ} (hi : InRange f.size i) :
    f.reread x (.int i) = .ok (true, .int i) := by
  rcases hd with hd | hd <;>
    simp [reread, deparseOutput, hk, hm, deparseInt, Value.toInt?, bind, Except.bind,
      parseInput_key hk, parseFlat, hd, parseInt_int hw hi.2]

theorem reread_pair (hm : f.matchType = .range ∨ f.matchType = .lpm) {a b : ℤ}
    (ha : InRange f.size a) (hb : InRange f.size b) :
    f.reread x (.tuple [.int a, .int b]) = .ok (true, .list [.int a, .int b]) := by
  rcases hm with hm | hm <;>
    simp [reread, deparseOutput, hk, hm, deparsePair, Value.index, deparseInt, Value.toInt?, bind,
      Except.bind, parseInput_key hk, parseFlat, parsePair, parseInt_int hw ha.2,
      parseInt_int hw hb.2]

theorem reread_ternary (hm : f.matchType = .ternary) {value mask : ℤ}
    (hv : InRange f.size value) (hmask : InRange f.size mask) :
    f.reread x (.tuple [.int value, .int mask]) = .ok (true, .list [.int value, .int mask]) := by
  simp [reread, deparseOutput, hk, hm, deparsePair, Value.index, deparseInt, Value.toInt?, bind,
    Except.bind, parseInput_key hk, parseFlat, parseTernary, parseInt_int hw hv.2,
    parseInt_int hw hmask.2, hmask.1]

theorem reread_optional (hm : f.matchType = .optional) {value : ℤ} {isValid : Bool}
    (hv : InRange f.size value) :
    f.reread x (.tuple [.int value, .bool isValid]) =
      .ok (true, .list [.int value, .bool isValid]) := by
  simp [reread, deparseOutput, hk, hm, deparsePair, Value.index, deparseInt, Value.toInt?, bind,
    Except.bind, parseInput_key hk, parseFlat, parseOptional, parseInt_int hw hv.2, parseBool,
    given, hw, Value.truth]

theorem reread_exactString_iff (hm : f.matchType = .exact) (hd : f.dataType = .string)
    (s : String) :
    (∃ p, f.reread x (.str s) = .ok (true, p) ∧ p.canon = (Value.str s).canon) ↔
      KeyKept f (.str s) := by
  rw [reread_exactString hk hw hm hd]
  constructor
  · rintro ⟨p, hp, hsame⟩
    cases hp
    intro _
    refine .inr (.inr ⟨hd, ?_⟩)
    rintro t ht
    cases ht
    cases hint : intOfString s with
    | none => exact .inl rfl
    | some i =>
      rw [hint] at hsame
      simp only [Option.map_some, Option.getD_some, Value.canon_str, Value.str.injEq] at hsame
      exact .inr ⟨i, hsame.symm⟩
  · intro hkept
    refine ⟨_, rfl, ?_⟩
    rcases hkept hm with hu | hb | ⟨-, hs⟩
    · rw [hd] at hu
      cases hu
    · rw [hd] at hb
      cases hb
    · rcases hs s rfl with hnone | ⟨i, rfl⟩
      · rw [hnone]
        rfl
      · rw [intOfString_toString]
        rfl

theorem reread_exactInt_iff (hm : f.matchType = .exact) (hd : f.dataType ≠ .string) {i : ℤ}
    (hi : InRange f.size i) :
    (∃ p, f.reread x (.int i) = .ok (true, p) ∧ p.canon = (Value.int i).canon) ↔
      KeyKept f (.int i) := by
  by_cases hknown : f.dataType = .uint64 ∨ f.dataType = .byteStream
  · rw [reread_exactInt hk hw hm hknown hi]
    constructor
    · exact fun _ _ => hknown.imp_right .inl
    · exact fun _ => ⟨_, rfl, rfl⟩
  · rw [reread_exactOther hk hm hd hknown]
    constructor
    · rintro ⟨p, hp, -⟩
      cases hp
    · intro hkept
      rcases hkept hm with hu | hb | ⟨hs, -⟩
      · exact absurd (.inl hu) hknown
      · exact absurd (.inr hb) hknown
      · exact absurd hs hd

/-- A key value survives exactly when it is kept. -/
theorem reread_key_iff {value : Value} (hv : KeyReadBack f value) :
    (∃ p, f.reread x value = .ok (true, p) ∧ p.canon = value.canon) ↔ KeyKept f value := by
  cases hv with
  | exactString hm hd _ => exact reread_exactString_iff hk hw hm hd _
  | exactInt hm hd hi => exact reread_exactInt_iff hk hw hm hd hi
  | ternary hm hv hmask =>
    rw [reread_ternary hk hw hm hv hmask]
    exact iff_of_true ⟨_, rfl, by simp⟩ (keyKept_of_ne (by simp [hm]) _)
  | range hm hstart hstop =>
    rw [reread_pair hk hw (.inl hm) hstart hstop]
    exact iff_of_true ⟨_, rfl, by simp⟩ (keyKept_of_ne (by simp [hm]) _)
  | @lpm value len hm hv hlen =>
    have hrange : InRange f.size len := by
      have hlt : len < 2 ^ f.size := lt_of_le_of_lt hlen Nat.lt_two_pow_self
      exact ⟨by omega, by exact_mod_cast hlt⟩
    rw [reread_pair hk hw (.inr hm) hv hrange]
    exact iff_of_true ⟨_, rfl, by simp⟩ (keyKept_of_ne (by simp [hm]) _)
  | optional hm hv =>
    rw [reread_optional hk hw hm hv]
    exact iff_of_true ⟨_, rfl, by simp⟩ (keyKept_of_ne (by simp [hm]) _)

end Keys

section ReadOnly

variable (hr : f.readOnly = true)
include hr

theorem parseInt_readOnly (value : Value) (skipSizeCheck maskType : Bool) :
    f.parseInt x value skipSizeCheck maskType = .ok (true, .none) := by
  cases value <;> simp [parseInt, hr]

theorem given_readOnly (value default : Value) : f.given value default = none := by
  cases value <;> simp [given, hr]

end ReadOnly

theorem parseElements_map {α : Type*} {parseElement : Value → Parsed} {g h : α → Value}
    {elements : List α} (hparse : ∀ a ∈ elements, parseElement (g a) = .ok (true, h a)) :
    parseElements parseElement (elements.map g) = .ok (some (elements.map h)) := by
  induction elements with
  | nil => rfl
  | cons a elements ih =>
    have hrest := ih fun b hb => hparse b (by simp [hb])
    simp [parseElements, hparse a (by simp), hrest, bind, Except.bind]

theorem parseArr_map {α : Type*} {parseElement : Value → Parsed} {g h : α → Value}
    {elements : List α} (hparse : ∀ a ∈ elements, parseElement (g a) = .ok (true, h a)) :
    parseArr parseElement (.list (elements.map g)) = .ok (true, .list (elements.map h)) := by
  simp [parseArr, Value.iterate, parseElements_map hparse, bind, Except.bind]

theorem parseIntArr_list (items : List Value) :
    f.parseIntArr x (.list items) =
      match f.given (.list items) (.list []) with
      | none => .ok (true, .none)
      | some value => parseArr (fun element => f.parseInt x element true false) value := by
  rfl

section DataFields

variable (hk : f.category = .data)
include hk

/-- The dump of a value of each type, and the parser it goes through. -/
theorem reread_number (hd : f.dataType = .uint64 ∨ f.dataType = .byteStream ∨ f.dataType = .int64)
    (i : ℤ) : f.reread x (.int i) = f.parseInt x (.int i) false false := by
  rcases hd with hd | hd | hd <;>
    simp [reread, deparseOutput, hk, hd, deparseInt, Value.toInt?, bind, Except.bind,
      parseInput_eq_parseFlat, parseFlat]

theorem reread_bool (hd : f.dataType = .bool) (b : Bool) :
    f.reread x (.bool b) = f.parseInt x (.bool b) false false := by
  simp [reread, deparseOutput, hk, hd, Value.truth, bind, Except.bind, parseInput_eq_parseFlat,
    parseFlat]

theorem reread_string (hd : f.dataType = .string) (s : String) :
    f.reread x (.str s) = f.parseString x (.str s) := by
  simp [reread, deparseOutput, hk, hd, Value.toStr, bind, Except.bind, parseInput_eq_parseFlat,
    parseFlat]

theorem reread_arr (hd : f.dataType = .intArr ∨ f.dataType = .boolArr) (items : List Value) :
    f.reread x (.list items) = f.parseIntArr x (.list (items.map Value.viaJson)) := by
  rcases hd with hd | hd <;>
    simp [reread, deparseOutput, hk, hd, deparseIntArr, bind, Except.bind,
      parseInput_eq_parseFlat, parseFlat]

/-- Whatever the strings are. -/
theorem reread_strArr (hd : f.dataType = .strArr) (value : Value) :
    f.reread x value = f.parseStrArr x (.str "Error") := by
  simp [reread, deparseOutput, hk, hd, bind, Except.bind, parseInput_eq_parseFlat, parseFlat]

/-- Whatever was read for a read-only field is not given back. -/
theorem reread_readOnly (hr : f.readOnly = true) {value : Value} (hv : DataReadBack f value) :
    f.reread x value = .ok (true, .none) := by
  cases hv with
  | uint64 hd _ => rw [reread_number hk (.inl hd), parseInt_readOnly hr]
  | byteStream hd _ => rw [reread_number hk (.inr (.inl hd)), parseInt_readOnly hr]
  | int64 hd _ => rw [reread_number hk (.inr (.inr hd)), parseInt_readOnly hr]
  | bool hd _ => rw [reread_bool hk hd, parseInt_readOnly hr]
  | string hd _ => rw [reread_string hk hd, parseString, given_readOnly hr]
  | intArr hd _ => rw [reread_arr hk (.inl hd), parseIntArr_list, given_readOnly hr]
  | boolArr hd => rw [reread_arr hk (.inr hd), parseIntArr_list, given_readOnly hr]
  | strArr hd _ => rw [reread_strArr hk hd, parseStrArr, given_readOnly hr]

variable (hw : f.readOnly = false)
include hw

theorem reread_intArr (hd : f.dataType = .intArr) (elements : List ℕ) :
    f.reread x (.list (elements.map fun n : ℕ => .int n)) =
      .ok (true, .list (elements.map fun n : ℕ => .int n)) := by
  have hparse : ∀ n ∈ elements, f.parseInt x (.int (n : ℤ)) true false = .ok (true, .int n) :=
    fun n _ => by simp [parseInt, hw, convertInt, intOfInput, Value.toInt?]
  rw [reread_arr hk (.inl hd), parseIntArr_list, List.map_map]
  simp only [given, hw, Bool.false_eq_true, if_false]
  exact parseArr_map hparse

/-- Booleans in an array come back as integers. -/
theorem reread_boolArr (hd : f.dataType = .boolArr) (elements : List Bool) :
    f.reread x (.list (elements.map .bool)) =
      .ok (true, .list (elements.map fun b => .int b.toNat)) := by
  have hparse : ∀ b ∈ elements, f.parseInt x (.bool b) true false = .ok (true, .int b.toNat) :=
    fun b _ => by simp [parseInt, hw, convertInt, intOfInput, Value.toInt?]
  rw [reread_arr hk (.inr hd), parseIntArr_list, List.map_map]
  simp only [given, hw, Bool.false_eq_true, if_false]
  exact parseArr_map hparse

theorem reread_strArr_writable (hd : f.dataType = .strArr) (value : Value) :
    f.reread x value = .ok (true, errorLetters) := by
  have hparse : ∀ s ∈ ["E", "r", "r", "o", "r"],
      f.parseString x (.str s) = .ok (true, .str s) := fun s _ => parseString_str hw s
  rw [reread_strArr hk hd, parseStrArr]
  simp only [given, hw, Bool.false_eq_true, if_false]
  exact parseArr_map hparse

end DataFields

theorem canon_strs (elements : List String) :
    (Value.list (elements.map .str)).canon = .list (elements.map .str) := by
  simp

/-- A data value survives, as far as the field can be written, exactly when it is kept. -/
theorem reread_data_iff (hk : f.category = .data) {value : Value} (hv : DataReadBack f value) :
    (∃ p, f.reread x value = .ok (true, p) ∧ (f.readOnly = false → p.canon = value.canon)) ↔
      DataKept f value := by
  cases hr : f.readOnly with
  | true =>
    rw [reread_readOnly hk hr hv]
    exact iff_of_true ⟨_, rfl, by simp⟩ (by simp [DataKept, hr])
  | false =>
    have hother : f.dataType ≠ .strArr → DataKept f value := fun hne _ hd => absurd hd hne
    cases hv with
    | uint64 hd hi =>
      rw [reread_number hk (.inl hd), parseInt_int hr hi.2 (by simp)]
      exact iff_of_true ⟨_, rfl, fun _ => rfl⟩ (hother (by simp [hd]))
    | byteStream hd hi =>
      rw [reread_number hk (.inr (.inl hd)), parseInt_int hr hi.2 (by simp)]
      exact iff_of_true ⟨_, rfl, fun _ => rfl⟩ (hother (by simp [hd]))
    | int64 hd hi =>
      rw [reread_number hk (.inr (.inr hd)), parseInt_int hr hi (by simp)]
      exact iff_of_true ⟨_, rfl, fun _ => rfl⟩ (hother (by simp [hd]))
    | bool hd hb =>
      rw [reread_bool hk hd, parseInt_bool hr hb.2]
      exact iff_of_true ⟨_, rfl, fun _ => rfl⟩ (hother (by simp [hd]))
    | string hd _ =>
      rw [reread_string hk hd, parseString_str hr]
      exact iff_of_true ⟨_, rfl, fun _ => rfl⟩ (hother (by simp [hd]))
    | intArr hd _ =>
      rw [reread_intArr hk hr hd]
      exact iff_of_true ⟨_, rfl, fun _ => rfl⟩ (hother (by simp [hd]))
    | boolArr hd =>
      rw [reread_boolArr hk hr hd]
      exact iff_of_true ⟨_, rfl, fun _ => by simp⟩ (hother (by simp [hd]))
    | @strArr elements hd _ =>
      rw [reread_strArr_writable hk hr hd]
      constructor
      · rintro ⟨p, hp, hsame⟩
        cases hp
        have hcanon := hsame rfl
        rw [errorLetters, canon_strs, canon_strs] at hcanon
        exact fun _ _ => hcanon.symm
      · intro hkept
        exact ⟨_, rfl, fun _ => by rw [hkept hr hd]⟩

/-- What was read back can be dumped. -/
theorem exists_deparseOutput_key (hk : f.category = .key) {value : Value}
    (hv : KeyReadBack f value) : ∃ shown, f.deparseOutput x value = .ok shown := by
  cases hv <;> simp_all [deparseOutput, deparsePair, Value.index, bind, Except.bind]

theorem exists_deparseOutput_data (hk : f.category = .data) {value : Value}
    (hv : DataReadBack f value) : ∃ shown, f.deparseOutput x value = .ok shown := by
  cases hv <;> simp_all [deparseOutput, deparseIntArr]

end Field
end Tdi.Cli
