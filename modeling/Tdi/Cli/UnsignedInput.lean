import Tdi.Cli.JsonDump
import Tdi.Cli.Reread
import Tdi.Cli.SetFields
import Tdi.Json.FieldAgreement

/-!
# From the user's numbers to the driver's

`parse_input` checks that a number has no more bits than its field, by shifting it.
`_set_key_fields` and `_set_data_field` then pass it on as a C integer or as bytes,
and both keep as many bits as fit. A negative number passes the check, as shifting
leaves it negative; a prefix length is checked as if it were a value; and the
elements of an array are not checked.
-/
namespace Tdi.Cli

open Foundation

namespace Value

mutual

/-- The parsed value as content of a key or a data object. -/
def toContent : Value → Content
  | .none => .none
  | .bool b => .bool b
  | .int i => .int i
  | .float x => .float x
  | .str s => .str s
  | .list items => .list (toContents items)
  | .tuple items => .list (toContents items)
  | .dict members => .dict (toContentMembers members)

def toContents : List Value → List Content
  | [] => []
  | value :: values => value.toContent :: toContents values

def toContentMembers : List (String × Value) → List (String × Content)
  | [] => []
  | (key, value) :: members => (key, value.toContent) :: toContentMembers members

end

theorem toContents_eq_map (values : List Value) : toContents values = values.map toContent := by
  induction values with
  | nil => rfl
  | cons value values ih => rw [toContents, ih, List.map_cons]

end Value

def DataType.toFieldDataType : DataType → FieldDataType
  | intArr => .intArr
  | boolArr => .boolArr
  | uint64 => .uint64
  | byteStream => .byteStream
  | float => .float
  | container => .container
  | string => .string
  | bool => .bool
  | strArr => .stringArr
  | int64 => .int64
  | notImplemented => .unknown

/-- The numbers a call hands to the driver for values, masks and bounds. -/
def KeySet.numbers : KeySet → List ℤ
  | string _ => []
  | value v => [v.toNat]
  | ptr bytes => [BigEndian.value bytes]
  | valueAndMask v mask => [v.toNat, mask.toNat]
  | valueAndMaskPtr v mask => [BigEndian.value v, BigEndian.value mask]
  | valueRange first last => [first.toNat, last.toNat]
  | valueRangePtr first last => [BigEndian.value first, BigEndian.value last]
  | valueLpm v _ => [v.toNat]
  | valueLpmPtr v _ => [BigEndian.value v]
  | valueOptional v _ => [v.toNat]
  | valueOptionalPtr v _ => [BigEndian.value v]

def KeySet.prefixLen? : KeySet → Option UInt16
  | valueLpm _ prefixLen => some prefixLen
  | valueLpmPtr _ prefixLen => some prefixLen
  | _ => none

def DataSet.numbers : DataSet → List ℤ
  | value v => [v.toNat]
  | ptr bytes => [BigEndian.value bytes]
  | array values => values.map fun v => v.toNat
  | _ => []

namespace Field

variable (x : Externs) (display : Content → String) (f : Field) (isPtr : Bool)

/-- The field as the setters read it. -/
def setField : SetField := ⟨f.size, isPtr, f.matchType, f.dataType.toFieldDataType⟩

/-- A field whose value is an unsigned number or a pair with one. -/
def Unsigned : Prop :=
  match f.category, f.matchType with
  | .key, .exact => f.dataType = .uint64 ∨ f.dataType = .byteStream
  | .key, .notImplemented => False
  | .key, _ => True
  | .data, _ => f.dataType = .uint64 ∨ f.dataType = .byteStream

/-- A field that the driver takes as a C integer is not wider than one: a key field is a
pointer when it is wider, and a data field of type `UINT64` has at most 64 bits. -/
def ScalarFits : Prop :=
  isPtr = false → f.category = .data ∧ f.dataType = .byteStream ∨ f.size ≤ 64

/-- The parsed value consists of integers, as far as it goes to the driver as numbers, and
these are the unsigned ones among them. -/
inductive Operands : Value → List ℤ → Prop
  | single (h : f.category = .data ∨ f.matchType = .exact) (p : ℤ) : Operands (.int p) [p]
  | ternary (h : f.category = .key ∧ f.matchType = .ternary) (p mask : ℤ) :
    Operands (.list [.int p, .int mask]) [p, mask]
  | range (h : f.category = .key ∧ f.matchType = .range) (p q : ℤ) :
    Operands (.list [.int p, .int q]) [p, q]
  | lpm (h : f.category = .key ∧ f.matchType = .lpm) (p prefixLen : ℤ) :
    Operands (.list [.int p, .int prefixLen]) [p]
  | optional (h : f.category = .key ∧ f.matchType = .optional) (p : ℤ) (isValid : Value) :
    Operands (.list [.int p, isValid]) [p]

/-- The numbers that reach the driver. -/
def received (parsed : Value) : Except Failure (List ℤ) :=
  match f.category with
  | .key => (keySet (f.setField isPtr) parsed.toContent).map fun call =>
      call.elim [] KeySet.numbers
  | .data => (dataSet display (f.setField isPtr) parsed.toContent).map fun call =>
      call.elim [] DataSet.numbers

/-- The parts of the input that are parsed as unsigned numbers and not as masks. -/
def unmaskedInputs (input : Value) : List Value :=
  let part (i : ℕ) := (input.index i).toOption.toList
  match f.category, f.matchType with
  | .key, .ternary => part 0
  | .key, .range => part 0 ++ part 1
  | .key, .lpm => part 0
  | .key, .optional => part 0
  | _, _ => [input]

section Parsing

variable {x f} {input : Value} {p mask : ℤ}

theorem shiftRight_pos {i : ℤ} {size : ℕ} (h : 2 ^ size ≤ i) : i >>> size > 0 := by
  have hpos : (0 : ℤ) < ((2 ^ size : ℕ) : ℤ) := by positivity
  have hle : 1 ≤ i / ((2 ^ size : ℕ) : ℤ) := by
    rw [Int.le_ediv_iff_mul_le hpos]
    push_cast
    omega
  rw [Int.shiftRight_eq_div_pow]
  omega

theorem convertInt_eq_int {value : Value} {skipSizeCheck maskType : Bool}
    (h : f.convertInt x value skipSizeCheck maskType = .ok (true, .int p)) :
    ∃ i, intOfInput x value = some i ∧
      p = (if maskType = true ∧ i < 0 then i % 2 ^ f.size else i) ∧
      (skipSizeCheck = false → p < 2 ^ f.size) := by
  unfold convertInt at h
  cases hi : intOfInput x value with
  | none =>
    rw [hi] at h
    cases h
  | some i =>
    simp only [hi] at h
    refine ⟨i, rfl, ?_⟩
    generalize (if maskType = true ∧ i < 0 then i % 2 ^ f.size else i) = parsed at h ⊢
    by_cases hskip : skipSizeCheck = true
    · rw [if_pos hskip] at h
      cases h
      exact ⟨rfl, fun hnot => absurd hskip (by simp [hnot])⟩
    · rw [if_neg hskip] at h
      by_cases hwide : parsed >>> f.size > 0
      · rw [if_pos hwide] at h
        cases h
      · rw [if_neg hwide] at h
        cases h
        refine ⟨rfl, fun _ => ?_⟩
        by_contra hle
        exact hwide (shiftRight_pos (not_lt.mp hle))

/-- What `_parse_int` makes of a part of the input: a number of at most the field's bits that
is negative only where the input is. -/
def Checked (x : Externs) (f : Field) (value : Value) (p : ℤ) : Prop :=
  p < 2 ^ f.size ∧ (0 ≤ p ↔ ∀ i, intOfInput x value = some i → 0 ≤ i)

theorem checked_of_none (hlt : p < 2 ^ f.size) (hp : 0 ≤ p) : Checked x f .none p :=
  ⟨hlt, iff_of_true hp fun i hi => absurd hi (by simp [intOfInput, Value.toInt?])⟩

/-- An integer that `_parse_int` returns was converted from the input, or from the default of no
input. -/
theorem convertInt_of_parseInt {value : Value} {skipSizeCheck maskType : Bool}
    (h : f.parseInt x value skipSizeCheck maskType = .ok (true, .int p)) :
    ∃ value', f.convertInt x value' skipSizeCheck maskType = .ok (true, .int p) ∧
      (value' = value ∨
        value = .none ∧ value' = .int (if maskType then 2 ^ f.size - 1 else 0)) := by
  unfold parseInt at h
  split at h
  next =>
    split at h
    next => cases h
    next =>
      split at h
      next => cases h
      next => exact ⟨_, h, .inr ⟨rfl, rfl⟩⟩
  next =>
    split at h
    next => cases h
    next => exact ⟨_, h, .inl rfl⟩

theorem parseInt_eq_int {value : Value} {skipSizeCheck : Bool}
    (h : f.parseInt x value skipSizeCheck false = .ok (true, .int p)) :
    (value = .none ∧ p = 0 ∨ intOfInput x value = some p) ∧
      (skipSizeCheck = false → p < 2 ^ f.size) := by
  obtain ⟨value', hconvert, hvalue⟩ := convertInt_of_parseInt h
  obtain ⟨i, hi, hp, hlt⟩ := convertInt_eq_int hconvert
  have hsame : p = i := by simpa using hp
  refine ⟨?_, hlt⟩
  rw [hsame]
  rcases hvalue with rfl | ⟨hnone, rfl⟩
  · exact .inr hi
  · exact .inl ⟨hnone, (Option.some.inj hi).symm⟩

/-- Where a condition holds of 0, it holds of the returned integer when it holds of the input. -/
theorem parseInt_iff {value : Value} {skipSizeCheck : Bool} {P : ℤ → Prop} (hzero : P 0)
    (h : f.parseInt x value skipSizeCheck false = .ok (true, .int p)) :
    P p ↔ ∀ i, intOfInput x value = some i → P i := by
  rcases (parseInt_eq_int h).1 with ⟨rfl, rfl⟩ | hi
  · exact iff_of_true hzero fun i hi => absurd hi (by simp [intOfInput, Value.toInt?])
  · rw [hi]
    constructor
    · intro hp i hsame
      exact Option.some.inj hsame ▸ hp
    · intro hall
      exact hall p rfl

theorem parseInt_checked {value : Value} (h : f.parseInt x value false false = .ok (true, .int p)) :
    Checked x f value p :=
  ⟨(parseInt_eq_int h).2 rfl, parseInt_iff le_rfl h⟩

theorem parseInt_mask {value : Value} (h : f.parseInt x value false true = .ok (true, .int mask)) :
    0 ≤ mask ∧ mask < 2 ^ f.size := by
  obtain ⟨value', hconvert, -⟩ := convertInt_of_parseInt h
  obtain ⟨i, -, hmask, hlt⟩ := convertInt_eq_int hconvert
  refine ⟨?_, hlt rfl⟩
  rw [hmask]
  split_ifs with hneg
  · exact Int.emod_nonneg _ (by positivity)
  · simpa using hneg

theorem eq_of_list_ok {success success' : Bool} {items items' : List Value}
    (h : (.ok (success, .list items) : Parsed) = .ok (success', .list items')) :
    success = success' ∧ items = items' := by
  injection h with h
  obtain ⟨hsuccess, hlist⟩ := Prod.mk.inj h
  injection hlist with hlist
  exact ⟨hsuccess, hlist⟩

theorem eq_of_pair_ok {s0 s1 : Bool} {p0 p1 a b : Value}
    (h : (.ok (s0 && s1, .list [p0, p1]) : Parsed) = .ok (true, .list [a, b])) :
    (s0 = true ∧ p0 = a) ∧ s1 = true ∧ p1 = b := by
  obtain ⟨hs, hlist⟩ := eq_of_list_ok h
  obtain ⟨hs0, hs1⟩ := Bool.and_eq_true_iff.mp hs
  obtain ⟨hp0, hrest⟩ := List.cons.inj hlist
  exact ⟨⟨hs0, hp0⟩, hs1, (List.cons.inj hrest).1⟩

/-- What the parser of a pair made its operands of. -/
theorem parsePair_parts {q : ℤ}
    (h : f.parsePair x input = .ok (true, .list [.int p, .int q])) :
    ∃ v0 v1, input.index 0 = .ok v0 ∧ input.index 1 = .ok v1 ∧
      f.parseInt x v0 false false = .ok (true, .int p) ∧
      f.parseInt x v1 false false = .ok (true, .int q) := by
  obtain ⟨v0, hv0, h⟩ := bind_eq_ok_iff.mp h
  obtain ⟨⟨s0, p0⟩, hp0, h⟩ := bind_eq_ok_iff.mp h
  obtain ⟨v1, hv1, h⟩ := bind_eq_ok_iff.mp h
  obtain ⟨⟨s1, p1⟩, hp1, h⟩ := bind_eq_ok_iff.mp h
  obtain ⟨⟨rfl, rfl⟩, rfl, rfl⟩ := eq_of_pair_ok h
  exact ⟨v0, v1, hv0, hv1, hp0, hp1⟩

theorem parseTernary_checked
    (h : f.parseTernary x input = .ok (true, .list [.int p, .int mask])) :
    ∃ v0, input.index 0 = .ok v0 ∧ Checked x f v0 p ∧ 0 ≤ mask ∧ mask < 2 ^ f.size := by
  have hpos : (0 : ℤ) < 2 ^ f.size := by positivity
  obtain ⟨v0, hv0, h⟩ := bind_eq_ok_iff.mp h
  refine ⟨v0, hv0, ?_⟩
  split at h
  next =>
    obtain ⟨v1, -, h⟩ := bind_eq_ok_iff.mp h
    split at h
    next =>
      cases h
      exact ⟨checked_of_none hpos le_rfl, le_rfl, hpos⟩
    next =>
      obtain ⟨⟨s0, p0⟩, hp0, h⟩ := bind_eq_ok_iff.mp h
      obtain ⟨⟨s1, p1⟩, hp1, h⟩ := bind_eq_ok_iff.mp h
      obtain ⟨⟨rfl, rfl⟩, rfl, rfl⟩ := eq_of_pair_ok h
      exact ⟨parseInt_checked hp0, parseInt_mask hp1⟩
  next =>
    obtain ⟨⟨s0, p0⟩, hp0, h⟩ := bind_eq_ok_iff.mp h
    obtain ⟨v1, -, h⟩ := bind_eq_ok_iff.mp h
    obtain ⟨⟨s1, p1⟩, hp1, h⟩ := bind_eq_ok_iff.mp h
    obtain ⟨⟨rfl, rfl⟩, rfl, rfl⟩ := eq_of_pair_ok h
    exact ⟨parseInt_checked hp0, parseInt_mask hp1⟩

theorem parseOptional_checked {isValid : Value}
    (h : f.parseOptional x input = .ok (true, .list [.int p, isValid])) :
    ∃ v0, input.index 0 = .ok v0 ∧ Checked x f v0 p := by
  obtain ⟨v0, hv0, h⟩ := bind_eq_ok_iff.mp h
  refine ⟨v0, hv0, ?_⟩
  split at h
  next =>
    obtain ⟨⟨s0, p0⟩, hp0, h⟩ := bind_eq_ok_iff.mp h
    obtain ⟨v1, -, h⟩ := bind_eq_ok_iff.mp h
    obtain ⟨⟨s1, p1⟩, -, h⟩ := bind_eq_ok_iff.mp h
    obtain ⟨⟨rfl, rfl⟩, rfl, rfl⟩ := eq_of_pair_ok h
    exact parseInt_checked hp0
  next =>
    obtain ⟨v1, -, h⟩ := bind_eq_ok_iff.mp h
    split at h
    next =>
      obtain ⟨⟨s0, p0⟩, hp0, h⟩ := bind_eq_ok_iff.mp h
      cases h
      exact parseInt_checked hp0
    next =>
      obtain ⟨⟨s0, p0⟩, hp0, h⟩ := bind_eq_ok_iff.mp h
      obtain ⟨⟨s1, p1⟩, -, h⟩ := bind_eq_ok_iff.mp h
      obtain ⟨⟨rfl, rfl⟩, rfl, rfl⟩ := eq_of_pair_ok h
      exact parseInt_checked hp0

/-- Of an unsigned field, what the parser accepts fits the field, and is negative only where a
part of the input is that is not a mask. -/
theorem operands_checked {parsed : Value} {ps : List ℤ} (hu : f.Unsigned)
    (haccepted : f.parseInput x input = .ok (true, parsed)) (hops : f.Operands parsed ps) :
    (∀ p ∈ ps, p < 2 ^ f.size) ∧
      ((∀ p ∈ ps, 0 ≤ p) ↔
        ∀ v ∈ f.unmaskedInputs input, ∀ i, intOfInput x v = some i → 0 ≤ i) := by
  have hflat : f.parseInput x input = f.parseFlat x input := by
    apply parseInput_eq_parseFlat
    intro hcontainer
    simp [Unsigned, hcontainer] at hu
  rw [hflat] at haccepted
  cases hops with
  | single h p =>
    have hsingle : f.unmaskedInputs input = [input] := by
      cases hc : f.category with
      | data => simp [unmaskedInputs, hc]
      | key =>
        have hexact : f.matchType = .exact := h.resolve_left (by simp [hc])
        simp [unmaskedInputs, hc, hexact]
    have hparse : f.parseInt x input false false = .ok (true, .int p) := by
      cases hc : f.category with
      | data =>
        simp only [Unsigned, hc] at hu
        rcases hu with hd | hd <;> simpa [parseFlat, hc, hd] using haccepted
      | key =>
        have hexact : f.matchType = .exact := h.resolve_left (by simp [hc])
        simp only [Unsigned, hc, hexact] at hu
        rcases hu with hd | hd <;> simpa [parseFlat, hc, hexact, hd] using haccepted
    obtain ⟨hlt, hiff⟩ := parseInt_checked hparse
    simp [hsingle, hlt, hiff]
  | ternary h p mask =>
    simp only [parseFlat, h.1, h.2] at haccepted
    obtain ⟨v0, hv0, ⟨hlt, hiff⟩, hmask⟩ := parseTernary_checked haccepted
    simp [unmaskedInputs, h.1, h.2, hv0, Except.toOption, hlt, hiff, hmask]
  | range h p q =>
    simp only [parseFlat, h.1, h.2] at haccepted
    obtain ⟨v0, v1, hv0, hv1, hp, hq⟩ := parsePair_parts haccepted
    obtain ⟨hlt, hiff⟩ := parseInt_checked hp
    obtain ⟨hlt', hiff'⟩ := parseInt_checked hq
    simp [unmaskedInputs, h.1, h.2, hv0, hv1, Except.toOption, hlt, hiff, hlt', hiff']
  | lpm h p prefixLen =>
    simp only [parseFlat, h.1, h.2] at haccepted
    obtain ⟨v0, v1, hv0, -, hp, -⟩ := parsePair_parts haccepted
    obtain ⟨hlt, hiff⟩ := parseInt_checked hp
    simp [unmaskedInputs, h.1, h.2, hv0, Except.toOption, hlt, hiff]
  | optional h p isValid =>
    simp only [parseFlat, h.1, h.2] at haccepted
    obtain ⟨v0, hv0, hlt, hiff⟩ := parseOptional_checked haccepted
    simp [unmaskedInputs, h.1, h.2, hv0, Except.toOption, hlt, hiff]

section Elements

variable {es : List ℤ}

theorem forall₂_of_parseElements {parseElement : Value → Parsed} {items : List Value}
    (h : parseElements parseElement items = .ok (some (es.map .int))) :
    List.Forall₂ (fun v p => parseElement v = .ok (true, .int p)) items es := by
  induction items generalizing es with
  | nil =>
    cases es with
    | nil => exact .nil
    | cons p es => cases h
  | cons v items ih =>
    obtain ⟨⟨success, parsed⟩, hv, h⟩ := bind_eq_ok_iff.mp h
    cases success with
    | false => cases h
    | true =>
      obtain ⟨rest, hrest, h⟩ := bind_eq_ok_iff.mp h
      cases rest with
      | none => cases h
      | some rest =>
        cases es with
        | nil => cases h
        | cons p es =>
          injection h with h
          obtain ⟨hp, hes⟩ := List.cons.inj (Option.some.inj h)
          subst hp hes
          exact .cons hv (ih hrest)

theorem parseArr_elements {items : List Value} (hitems : input.iterate = some items)
    {parseElement : Value → Parsed}
    (h : parseArr parseElement input = .ok (true, .list (es.map .int))) :
    List.Forall₂ (fun v p => parseElement v = .ok (true, .int p)) items es := by
  rw [parseArr, hitems] at h
  obtain ⟨parsed, hparsed, h⟩ := bind_eq_ok_iff.mp h
  cases parsed with
  | none => cases h
  | some parsed =>
    obtain ⟨-, rfl⟩ := eq_of_list_ok h
    exact forall₂_of_parseElements hparsed

/-- A condition holds of the elements that were parsed where it holds of those of the input. -/
theorem elements_iff {P : ℤ → Prop} (hzero : P 0) {items : List Value}
    (h : List.Forall₂ (fun v p => f.parseInt x v true false = .ok (true, .int p)) items es) :
    (∀ p ∈ es, P p) ↔ ∀ v ∈ items, ∀ i, intOfInput x v = some i → P i := by
  induction h with
  | nil => simp
  | cons hv _ ih => rw [List.forall_mem_cons, List.forall_mem_cons, ih, parseInt_iff hzero hv]

theorem eq_nil_of_replicate_bool {n : ℕ} (h : List.replicate n (Value.bool true) = es.map .int) :
    es = [] := by
  cases es with
  | nil => rfl
  | cons p es =>
    have hmem : Value.int p ∈ List.replicate n (Value.bool true) := h ▸ List.mem_cons_self
    cases List.eq_of_mem_replicate hmem

theorem given_eq_some {value default parsed : Value} (h : f.given value default = some parsed) :
    value = .none ∧ parsed = default ∨ parsed = value := by
  unfold given at h
  split at h
  next =>
    split at h
    next => cases h
    next => exact .inl ⟨rfl, (Option.some.inj h).symm⟩
  next =>
    split at h
    next => cases h
    next => exact .inr (Option.some.inj h).symm

theorem parseIntArr_iff {P : ℤ → Prop} (hzero : P 0)
    (h : f.parseIntArr x input = .ok (true, .list (es.map .int))) :
    (∀ p ∈ es, P p) ↔ ∀ items, input.iterate = some items → ∀ v ∈ items, ∀ i,
      intOfInput x v = some i → P i := by
  have hempty : input = .none → es = [] → ((∀ p ∈ es, P p) ↔ ∀ items,
      input.iterate = some items → ∀ v ∈ items, ∀ i, intOfInput x v = some i → P i) := by
    intro hinput hes
    subst hinput hes
    simp [Value.iterate]
  unfold parseIntArr at h
  split at h
  next =>
    -- the default of `$ACTION_MEMBER_STATUS` holds no integers
    exact hempty rfl (eq_nil_of_replicate_bool (eq_of_list_ok h).2)
  next =>
    split at h
    next => cases h
    next hvalue =>
      rcases given_eq_some hvalue with ⟨hnone, rfl⟩ | rfl
      · have hnil := parseArr_elements rfl h
        cases hnil
        exact hempty hnone rfl
      · cases hitems : Value.iterate _ with
        | none =>
          rw [parseArr, hitems] at h
          cases h
        | some items =>
          rw [elements_iff hzero (parseArr_elements hitems h)]
          simp

end Elements

end Parsing

section Delivering

theorem toNat_ofInt_uint64 (p : ℤ) : ((UInt64.ofInt p).toNat : ℤ) = p ↔ 0 ≤ p ∧ p < 2 ^ 64 := by
  have hmod : ((UInt64.ofInt p).toNat : ℤ) = p % 2 ^ 64 := by
    simp [UInt64.ofInt]
    omega
  rw [hmod]
  omega

theorem toNat_ofInt_uint32 (p : ℤ) : ((UInt32.ofInt p).toNat : ℤ) = p ↔ 0 ≤ p ∧ p < 2 ^ 32 := by
  have hmod : ((UInt32.ofInt p).toNat : ℤ) = p % 2 ^ 32 := by
    simp [UInt32.ofInt]
    omega
  rw [hmod]
  omega

theorem toNat_ofInt_uint16 (p : ℤ) : ((UInt16.ofInt p).toNat : ℤ) = p ↔ 0 ≤ p ∧ p < 2 ^ 16 := by
  have hmod : ((UInt16.ofInt p).toNat : ℤ) = p % 2 ^ 16 := by
    simp [UInt16.ofInt]
    omega
  rw [hmod]
  omega

variable {x display f isPtr}

/-- A number that fits the field, as the driver reads it. -/
structure Fits (f : Field) (p : ℤ) : Prop where
  nonneg : 0 ≤ p
  lt : p < 2 ^ f.size

theorem Fits.uint64 {p : ℤ} (hp : f.Fits p) (hw : f.size ≤ 64) :
    ((UInt64.ofInt p).toNat : ℤ) = p := by
  have hle : (2 : ℤ) ^ f.size ≤ 2 ^ 64 := pow_le_pow_right₀ (by norm_num) hw
  exact (toNat_ofInt_uint64 p).mpr ⟨hp.nonneg, hp.lt.trans_le hle⟩

theorem Fits.byteArr {p : ℤ} (hp : f.Fits p) (hw : 1 ≤ f.size) :
    ∃ bytes, (Content.int p).byteArr f.size = .ok bytes ∧ (BigEndian.value bytes : ℤ) = p := by
  obtain ⟨n, rfl⟩ := Int.eq_ofNat_of_zero_le hp.nonneg
  have hlt : n < 2 ^ f.size := by exact_mod_cast hp.lt
  have hbytes : (f.size + 7) / 8 ≠ 0 := by omega
  refine ⟨BigEndian.encode ((f.size + 7) / 8) n, ?_, ?_⟩
  · have hfill := fillCByteArr_natCast n f.size
    simp [Content.byteArr, hbytes, Content.asInt, Except.map, hfill]
  · rw [BigEndian.value_encode (hlt.trans_le (two_pow_le_pow_sizeInBytes _))]

@[simp] theorem cUlonglong_int (p : ℤ) : (Content.int p).cUlonglong = .ok (UInt64.ofInt p) := rfl

@[simp] theorem cUshort_int (p : ℤ) : (Content.int p).cUshort = .ok (UInt16.ofInt p) := rfl

@[simp] theorem index_pair_zero (a b : Content) : (Content.list [a, b]).index 0 = .ok a := rfl

@[simp] theorem index_pair_one (a b : Content) : (Content.list [a, b]).index 1 = .ok b := rfl

@[simp] theorem toContent_int (p : ℤ) : (Value.int p).toContent = .int p := by
  simp [Value.toContent]

@[simp] theorem toContent_pair (a b : Value) :
    (Value.list [a, b]).toContent = .list [a.toContent, b.toContent] := by
  simp [Value.toContent, Value.toContents]

section Received

variable (hw : 1 ≤ f.size)
include hw

theorem received_data {p : ℤ} (hc : f.category = .data)
    (hd : f.dataType = .uint64 ∨ f.dataType = .byteStream) (hscalar : f.ScalarFits isPtr)
    (hp : f.Fits p) : f.received display isPtr (.int p) = .ok [p] := by
  obtain ⟨bytes, hbytes, hvalue⟩ := hp.byteArr hw
  rcases hd with hd | hd
  · cases isPtr with
    | false =>
      have hsize : f.size ≤ 64 := (hscalar rfl).resolve_left (by simp [hd])
      simp [received, hc, hd, dataSet, setField, DataType.toFieldDataType, Except.map,
        Functor.map, DataSet.numbers, hp.uint64 hsize]
    | true =>
      simp [received, hc, hd, dataSet, setField, DataType.toFieldDataType, Except.map,
        Functor.map, DataSet.numbers, hbytes, hvalue]
  · simp [received, hc, hd, dataSet, setField, DataType.toFieldDataType, Except.map,
      Functor.map, DataSet.numbers, hbytes, hvalue]

theorem received_exact {p : ℤ} (hc : f.category = .key) (hm : f.matchType = .exact)
    (hd : f.dataType = .uint64 ∨ f.dataType = .byteStream) (hscalar : f.ScalarFits isPtr)
    (hp : f.Fits p) : f.received display isPtr (.int p) = .ok [p] := by
  obtain ⟨bytes, hbytes, hvalue⟩ := hp.byteArr hw
  have hstring : f.dataType.toFieldDataType ≠ .string := by
    rcases hd with hd | hd <;> simp [hd, DataType.toFieldDataType]
  cases isPtr with
  | false =>
    have hsize : f.size ≤ 64 := (hscalar rfl).resolve_left (by simp [hc])
    simp [received, hc, hm, keySet, setField, hstring, Except.map, Functor.map,
      KeySet.numbers, hp.uint64 hsize]
  | true =>
    simp [received, hc, hm, keySet, setField, hstring, Except.map, Functor.map,
      KeySet.numbers, hbytes, hvalue]

/-- Two numbers, as value and mask or as bounds. -/
theorem received_both {p q : ℤ} (hc : f.category = .key)
    (hm : f.matchType = .ternary ∨ f.matchType = .range) (hscalar : f.ScalarFits isPtr)
    (hp : f.Fits p) (hq : f.Fits q) :
    f.received display isPtr (.list [.int p, .int q]) = .ok [p, q] := by
  obtain ⟨bytes, hbytes, hvalue⟩ := hp.byteArr hw
  obtain ⟨bytes', hbytes', hvalue'⟩ := hq.byteArr hw
  cases isPtr with
  | false =>
    have hsize : f.size ≤ 64 := (hscalar rfl).resolve_left (by simp [hc])
    rcases hm with hm | hm <;>
      simp [received, hc, hm, keySet, setField, Except.map, bind, Except.bind, pure, Except.pure,
        KeySet.numbers, hp.uint64 hsize, hq.uint64 hsize]
  | true =>
    rcases hm with hm | hm <;>
      simp [received, hc, hm, keySet, setField, Except.map, bind, Except.bind, pure, Except.pure,
        KeySet.numbers, hbytes, hvalue, hbytes', hvalue']

/-- A number, before a prefix length or a validity bit. -/
theorem received_leading {p : ℤ} {second : Value} (hc : f.category = .key)
    (hm : (f.matchType = .lpm ∧ ∃ prefixLen, second = .int prefixLen) ∨ f.matchType = .optional)
    (hscalar : f.ScalarFits isPtr) (hp : f.Fits p) :
    f.received display isPtr (.list [.int p, second]) = .ok [p] := by
  obtain ⟨bytes, hbytes, hvalue⟩ := hp.byteArr hw
  cases isPtr with
  | false =>
    have hsize : f.size ≤ 64 := (hscalar rfl).resolve_left (by simp [hc])
    rcases hm with ⟨hm, prefixLen, rfl⟩ | hm <;>
      simp [received, hc, hm, keySet, setField, Except.map, bind, Except.bind, pure, Except.pure,
        KeySet.numbers, hp.uint64 hsize]
  | true =>
    rcases hm with ⟨hm, prefixLen, rfl⟩ | hm <;>
      simp [received, hc, hm, keySet, setField, Except.map, bind, Except.bind, pure, Except.pure,
        KeySet.numbers, hbytes, hvalue]

/-- Numbers that fit the field reach the driver as they are. -/
theorem received_of_fits {parsed : Value} {ps : List ℤ} (hu : f.Unsigned)
    (hscalar : f.ScalarFits isPtr) (hops : f.Operands parsed ps) (hps : ∀ p ∈ ps, f.Fits p) :
    f.received display isPtr parsed = .ok ps := by
  cases hops with
  | single h p =>
    have hp : f.Fits p := hps p List.mem_cons_self
    cases hc : f.category with
    | data =>
      simp only [Unsigned, hc] at hu
      exact received_data hw hc hu hscalar hp
    | key =>
      have hexact : f.matchType = .exact := h.resolve_left (by simp [hc])
      simp only [Unsigned, hc, hexact] at hu
      exact received_exact hw hc hexact hu hscalar hp
  | ternary h p mask =>
    exact received_both hw h.1 (.inl h.2) hscalar (hps p (by simp)) (hps mask (by simp))
  | range h p q =>
    exact received_both hw h.1 (.inr h.2) hscalar (hps p (by simp)) (hps q (by simp))
  | lpm h p prefixLen =>
    exact received_leading hw h.1 (.inl ⟨h.2, prefixLen, rfl⟩) hscalar (hps p (by simp))
  | optional h p isValid =>
    exact received_leading hw h.1 (.inr h.2) hscalar (hps p (by simp))

end Received

theorem mapM_cUint (es : List ℤ) :
    es.mapM (Content.cUint ∘ Content.int) = .ok (es.map UInt32.ofInt) := by
  induction es with
  | nil => rfl
  | cons p es ih =>
    rw [List.mapM_cons, ih]
    rfl

/-- The elements of an array are kept where they fit 32 bits. -/
theorem received_intArr_iff {es : List ℤ} (hc : f.category = .data) (hd : f.dataType = .intArr) :
    f.received display isPtr (.list (es.map .int)) = .ok es ↔ ∀ p ∈ es, 0 ≤ p ∧ p < 2 ^ 32 := by
  have hcontent : (Value.list (es.map .int)).toContent = .list (es.map .int) := by
    rw [Value.toContent, Value.toContents_eq_map, List.map_map]
    rfl
  have hreceived : f.received display isPtr (.list (es.map .int)) =
      .ok (es.map fun p => ((UInt32.ofInt p).toNat : ℤ)) := by
    simp [received, hc, hd, hcontent, dataSet, setField, DataType.toFieldDataType,
      Content.iterate, mapM_cUint, Except.map, bind, Except.bind, pure, Except.pure,
      DataSet.numbers]
  have hself := List.map_inj_left (f := fun p => ((UInt32.ofInt p).toNat : ℤ)) (g := fun p => p)
    (l := es)
  rw [List.map_id'] at hself
  rw [hreceived, Except.ok.injEq, hself]
  exact forall₂_congr fun p _ => toNat_ofInt_uint32 p

end Delivering

section Metadata

open Json

variable {Node : Type} (lib : CjsonApi Node) {f : Field}

/-- The fields that the schema files describe fit. -/
theorem scalarFits_parseKeyField (mapper : TdiInfoMapper) (tableKeyCjson : Cjson Node)
    (hsize : f.size = (parseKeyField lib mapper tableKeyCjson).sizeBits) :
    f.ScalarFits (parseKeyField lib mapper tableKeyCjson).isPtr := by
  intro hptr
  right
  rw [hsize]
  exact not_lt.mp (of_decide_eq_false hptr)

theorem type_ne_uint64 {node : Cjson Node}
    (h : typeStr lib node = "bytes" ∨ typeStr lib node = "string") :
    (parseFieldWidth lib node).type ≠ .uint64 := by
  have hbytes : ∀ repeated, dataTypeStrToEnum "bytes" repeated ≠ .uint64 := by
    intro repeated
    cases repeated <;> decide
  have hstring : ∀ repeated, dataTypeStrToEnum "string" repeated ≠ .uint64 := by
    intro repeated
    cases repeated <;> decide
  unfold typeStr at h
  rcases h with h | h
  · simp only [parseFieldWidth, h, if_true]
    exact hbytes _
  · simp only [parseFieldWidth, h, String.reduceEq, if_true, if_false]
    exact hstring _

theorem scalarFits_parseDataField (dataJsonIn : Cjson Node) (oneofIndex : ℕ)
    (hc : f.category = .data) (hu : f.Unsigned)
    (hsize : f.size = (parseDataField lib dataJsonIn oneofIndex).sizeBits)
    (htype : f.dataType.toFieldDataType = (parseDataField lib dataJsonIn oneofIndex).dataType) :
    f.ScalarFits (parseDataField lib dataJsonIn oneofIndex).isPtr := by
  intro _
  simp only [Unsigned, hc] at hu
  rcases hu with hd | hd
  · right
    rw [hsize]
    by_contra hwide
    have hlisted := (width_parseFieldWidth_gt_iff lib (dataFieldNode lib dataJsonIn oneofIndex)).mp
      (not_le.mp hwide)
    rw [hd] at htype
    exact absurd htype.symm (type_ne_uint64 lib hlisted.1)
  · exact .inl ⟨hc, hd⟩

end Metadata

section Settled

/-- The numbers that an unsigned field is given are in range and reach the driver exactly when no
part of the input that is not a mask is negative, and the elements of an array exactly when
those of the input fit 32 bits. -/
theorem unsigned_delivered_iff (x : Externs) (display : Content → String) (f : Field)
    (isPtr : Bool) (input : Value) :
    (∀ parsed ps, f.Unsigned → 1 ≤ f.size → f.ScalarFits isPtr →
      f.parseInput x input = .ok (true, parsed) → f.Operands parsed ps →
      (((∀ p ∈ ps, 0 ≤ p ∧ p < 2 ^ f.size) ∧ f.received display isPtr parsed = .ok ps) ↔
        ∀ v ∈ f.unmaskedInputs input, ∀ i, intOfInput x v = some i → 0 ≤ i)) ∧
    ∀ es : List ℤ, f.category = .data → f.dataType = .intArr →
      f.parseInput x input = .ok (true, .list (es.map .int)) →
      (f.received display isPtr (.list (es.map .int)) = .ok es ↔
        ∀ items, input.iterate = some items → ∀ v ∈ items, ∀ i,
          intOfInput x v = some i → 0 ≤ i ∧ i < 2 ^ 32) := by
  constructor
  · intro parsed ps hu hw hscalar haccepted hops
    obtain ⟨hlt, hiff⟩ := operands_checked hu haccepted hops
    rw [← hiff]
    constructor
    · intro ⟨hrange, _⟩ p hp
      exact (hrange p hp).1
    · intro hnonneg
      refine ⟨fun p hp => ⟨hnonneg p hp, hlt p hp⟩, ?_⟩
      exact received_of_fits hw hu hscalar hops fun p hp => ⟨hnonneg p hp, hlt p hp⟩
  · intro es hc hd haccepted
    have hflat : f.parseInput x input = f.parseIntArr x input := by
      rw [parseInput_eq_parseFlat (by simp [hd])]
      simp [parseFlat, hc, hd]
    rw [hflat] at haccepted
    rw [received_intArr_iff hc hd]
    exact parseIntArr_iff ⟨le_rfl, by norm_num⟩ haccepted

/-- A key field of nine bits that is matched exactly. -/
def portKey : Field :=
  { lagName with name := "port", size := 9, dataType := .uint64 }

theorem unsigned_delivered_iff_port :
    portKey.received (fun _ => "") false (.int 300) = .ok [300] :=
  (((unsigned_delivered_iff noExterns (fun _ => "") portKey false (.int 300)).1 (.int 300) [300]
    (.inl rfl) (by decide) (fun _ => .inr (by decide)) rfl (.single (.inr rfl) 300)).mpr
    (by
      intro v hv i hi
      cases List.mem_singleton.mp hv
      cases hi
      decide)).2

/-- A negative number is accepted, and all bits of the C integer are set. -/
theorem negative_port_accepted :
    portKey.parseInput noExterns (.int (-1)) = .ok (true, .int (-1)) ∧
      portKey.received (fun _ => "") false (.int (-1)) = .ok [2 ^ 64 - 1] :=
  ⟨rfl, rfl⟩

theorem keySet_lpm (f : Field) (isPtr : Bool) (hm : f.matchType = .lpm) (p prefixLen : ℤ) :
    ∃ call, keySet (f.setField isPtr) (Value.list [.int p, .int prefixLen]).toContent =
        .ok (some call) ∧ call.prefixLen? = some (UInt16.ofInt prefixLen) := by
  cases isPtr with
  | false =>
    refine ⟨.valueLpm (UInt64.ofInt p) (UInt16.ofInt prefixLen), ?_, rfl⟩
    simp [keySet, setField, hm, bind, Except.bind, pure, Except.pure]
  | true =>
    obtain ⟨bytes, hbytes⟩ : ∃ bytes, (Content.int p).byteArr f.size = .ok bytes := by
      unfold Content.byteArr
      split_ifs
      · exact ⟨_, rfl⟩
      · exact ⟨_, rfl⟩
    refine ⟨.valueLpmPtr bytes (UInt16.ofInt prefixLen), ?_, rfl⟩
    simp [keySet, setField, hm, hbytes, bind, Except.bind, pure, Except.pure]

/-- A prefix length is one of the field, and reaches the driver, exactly when that of the input
is no more than the width and fits 16 bits. -/
theorem prefixLen_delivered_iff (x : Externs) (f : Field) (isPtr : Bool) (input : Value)
    (hf : f.category = .key ∧ f.matchType = .lpm) (p prefixLen : ℤ)
    (haccepted : f.parseInput x input = .ok (true, .list [.int p, .int prefixLen])) :
    (0 ≤ prefixLen ∧ prefixLen ≤ f.size ∧
      ∃ call delivered, keySet (f.setField isPtr)
          (Value.list [.int p, .int prefixLen]).toContent = .ok (some call) ∧
        call.prefixLen? = some delivered ∧ (delivered.toNat : ℤ) = prefixLen) ↔
      ∀ v, input.index 1 = .ok v → ∀ i, intOfInput x v = some i →
        0 ≤ i ∧ i ≤ f.size ∧ i < 2 ^ 16 := by
  have hflat : f.parseInput x input = f.parsePair x input := by
    rw [parseInput_eq_parseFlat (by simp [hf])]
    simp [parseFlat, hf]
  rw [hflat] at haccepted
  obtain ⟨v0, v1, -, hv1, -, hparsed⟩ := parsePair_parts haccepted
  have hzero : (0 : ℤ) ≤ 0 ∧ (0 : ℤ) ≤ f.size ∧ (0 : ℤ) < 2 ^ 16 :=
    ⟨le_rfl, Int.natCast_nonneg _, by norm_num⟩
  have hinput := parseInt_iff (P := fun i => 0 ≤ i ∧ i ≤ f.size ∧ i < 2 ^ 16) hzero hparsed
  obtain ⟨call, hcall, hdelivered⟩ := keySet_lpm f isPtr hf.2 p prefixLen
  rw [hv1]
  constructor
  · rintro ⟨hnonneg, hle, call', delivered, hcall', hdelivered', hsame⟩ v hv
    cases hv
    cases hcall.symm.trans hcall'
    cases hdelivered.symm.trans hdelivered'
    exact hinput.mp ⟨hnonneg, hle, ((toNat_ofInt_uint16 prefixLen).mp hsame).2⟩
  · intro hall
    obtain ⟨hnonneg, hle, hlt⟩ := hinput.mpr (hall v1 rfl)
    exact ⟨hnonneg, hle, call, _, hcall, hdelivered,
      (toNat_ofInt_uint16 prefixLen).mpr ⟨hnonneg, hlt⟩⟩

/-- A key field of 32 bits that is matched by its longest prefix. -/
def routeKey : Field :=
  { lagName with name := "dst", size := 32, matchType := .lpm, dataType := .uint64 }

theorem prefixLen_delivered_iff_route :
    ∃ call delivered, keySet (routeKey.setField false)
        (Value.list [.int 1, .int 24]).toContent = .ok (some call) ∧
      call.prefixLen? = some delivered ∧ (delivered.toNat : ℤ) = 24 :=
  ((prefixLen_delivered_iff noExterns routeKey false (.list [.int 1, .int 24]) ⟨rfl, rfl⟩ 1 24
    rfl).mpr (by
      intro v hv i hi
      cases hv
      cases hi
      decide)).2.2

/-- A prefix longer than the field is accepted, and one of more than 16 bits becomes a short
one. -/
theorem long_prefixLen_accepted :
    routeKey.parseInput noExterns (.list [.int 1, .int 33]) =
        .ok (true, .list [.int 1, .int 33]) ∧
      routeKey.parseInput noExterns (.list [.int 1, .int 65537]) =
        .ok (true, .list [.int 1, .int 65537]) ∧
      ∃ call, keySet (routeKey.setField false)
          (Value.list [.int 1, .int 65537]).toContent = .ok (some call) ∧
        call.prefixLen? = some 1 :=
  ⟨rfl, rfl, _, rfl, rfl⟩

end Settled

end Field

end Tdi.Cli
