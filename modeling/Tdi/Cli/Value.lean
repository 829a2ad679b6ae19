import Tdi.Foundation.Dict
import Tdi.Foundation.JsonText

/-!
# Python values of the CLI

What the driver's fields read as and what a JSON text loads as, with the built-in
functions the CLI applies to them. A `bytes` name is given by its text, and `encode`
and `decode` only check that it is ASCII.
-/
namespace Tdi.Cli

open Foundation

inductive Value where
  | none
  | bool (b : Bool)
  | int (i : ℤ)
  | float (x : Float)
  | str (s : String)
  | list (items : List Value)
  | tuple (items : List Value)
  | dict (members : List (String × Value))

/-- The exceptions that are raised; the first five are `TdiTableError`s. -/
inductive Raised where
  | tooWide (category : String) (name : String) (parsed : ℤ) (size : ℕ)
  | notFloat
  | notIterable
  | unsupportedDataType (name : String)
  | unsupportedKeyType (name : String)
  | typeError
  | keyError
  | indexError
  | attributeError
  | unicodeError
  | jsonDecodeError
  deriving DecidableEq

/-- Packages outside the repository and one built-in: `int(ip_address(s))` and
`int(EUI(s))`, where they do not raise, and `str` of a list, tuple or dict. -/
structure Externs where
  ip : String → Option ℤ
  mac : String → Option ℤ
  display : Value → String

def encodeAscii (s : String) : Except Raised String :=
  if ∀ c ∈ s.toList, c.toNat < 128 then .ok s else .error .unicodeError

section IntLiterals

/-- The white space `int` strips from an ASCII string. -/
def isPySpace (c : Char) : Bool := c = ' ' ∨ 9 ≤ c.toNat ∧ c.toNat ≤ 13

def strip (s : List Char) : List Char :=
  ((s.dropWhile isPySpace).reverse.dropWhile isPySpace).reverse

/-- Digits of a base up to sixteen, with single underscores between them. -/
def readDigits (base : ℕ) : ℕ → Bool → List Char → Option ℕ
  | value, afterDigit, [] => if afterDigit then some value else none
  | value, afterDigit, c :: cs =>
    if c = '_' then (if afterDigit then readDigits base value false cs else none)
    else
      match JsonTree.hexValue c with
      | some d => if d < base then readDigits base (value * base + d) true cs else none
      | none => none

def readSigned (readUnsigned : List Char → Option ℕ) : List Char → Option ℤ
  | [] => none
  | c :: cs =>
    if c = '-' then (readUnsigned cs).map fun n : ℕ => -(n : ℤ)
    else if c = '+' then (readUnsigned cs).map fun n : ℕ => (n : ℤ)
    else (readUnsigned (c :: cs)).map fun n : ℕ => (n : ℤ)

/-- `int(s)` -/
def intOfString (s : String) : Option ℤ :=
  readSigned (readDigits 10 0 false) (strip s.toList)

/-- After a prefix one underscore is allowed. -/
def readPrefixed (base : ℕ) (cs : List Char) : Option ℕ :=
  if cs.head? = some '_' then readDigits base 0 false cs.tail else readDigits base 0 false cs

/-- A literal as in code: without a prefix only zero starts with a zero. -/
def readLiteral (cs : List Char) : Option ℕ :=
  match cs with
  | '0' :: 'x' :: cs => readPrefixed 16 cs
  | '0' :: 'X' :: cs => readPrefixed 16 cs
  | '0' :: 'o' :: cs => readPrefixed 8 cs
  | '0' :: 'O' :: cs => readPrefixed 8 cs
  | '0' :: 'b' :: cs => readPrefixed 2 cs
  | '0' :: 'B' :: cs => readPrefixed 2 cs
  | '0' :: cs => if readDigits 10 0 false ('0' :: cs) = some 0 then some 0 else none
  | cs => readDigits 10 0 false cs

/-- `int(s, 0)` -/
def intOfLiteral (s : String) : Option ℤ := readSigned readLiteral (strip s.toList)

theorem strip_of_forall {s : List Char} (h : ∀ c ∈ s, isPySpace c = false) : strip s = s := by
  have hleft : s.dropWhile isPySpace = s := by
    cases s with
    | nil => rfl
    | cons c s => simp [h c]
  have hright : s.reverse.dropWhile isPySpace = s.reverse := by
    cases hs : s.reverse with
    | nil => rfl
    | cons c rest =>
      have hc : c ∈ s := by
        rw [← List.mem_reverse, hs]
        simp
      simp [h c hc]
  rw [strip, hleft, hright, List.reverse_reverse]

theorem isDigit_bounds {c : Char} (h : c.isDigit = true) : '0' ≤ c ∧ c ≤ '9' := by
  simp only [Char.isDigit, Bool.and_eq_true, decide_eq_true_eq] at h
  exact h

theorem readDigits_cons_of_isDigit {c : Char} (h : c.isDigit = true) (value : ℕ)
    (afterDigit : Bool) (cs : List Char) :
    readDigits 10 value afterDigit (c :: cs) =
      readDigits 10 (value * 10 + (c.toNat - 48)) true cs := by
  have hbounds := isDigit_bounds h
  have hunderscore : c ≠ '_' := by
    rintro rfl
    exact absurd h (by decide)
  have hlt : c.toNat - 48 < 10 := by
    have hle : c.toNat ≤ 57 := hbounds.2
    omega
  simp [readDigits, hunderscore, JsonTree.hexValue, hbounds, hlt]

theorem readDigits_of_forall_isDigit {cs : List Char} (h : ∀ c ∈ cs, c.isDigit = true)
    (value : ℕ) : readDigits 10 value true cs = some (Nat.ofDigitChars 10 cs value) := by
  induction cs generalizing value with
  | nil => simp [readDigits]
  | cons c cs ih =>
    rw [readDigits_cons_of_isDigit (h c (by simp)), ih fun c hc => h c (by simp [hc]),
      Nat.ofDigitChars_cons, Nat.mul_comm]
    rfl

theorem readDigits_toDigits (n : ℕ) : readDigits 10 0 false (Nat.toDigits 10 n) = some n := by
  have hdigit : ∀ c ∈ Nat.toDigits 10 n, c.isDigit = true := fun c hc =>
    Nat.isDigit_of_mem_toDigits (by omega) (by omega) hc
  have hvalue := readDigits_of_forall_isDigit hdigit 0
  obtain ⟨c, cs, hcs⟩ := List.exists_cons_of_ne_nil (Nat.toDigits_ne_nil (n := n) (b := 10))
  rw [hcs] at hdigit hvalue
  have hc : c.isDigit = true := hdigit c (by simp)
  rw [readDigits_cons_of_isDigit hc] at hvalue
  rw [hcs, readDigits_cons_of_isDigit hc, hvalue, ← hcs, Nat.ofDigitChars_ten_toDigits]

theorem toList_toString_int (i : ℤ) : (toString i).toList = intText i := by
  cases i with
  | ofNat n =>
    have hn : toString (Int.ofNat n) = n.repr := rfl
    rw [hn, Nat.toList_repr]
    simp [intText]
  | negSucc n =>
    have hn : toString (Int.negSucc n) = "-" ++ (n + 1).repr := rfl
    rw [hn, String.toList_append, Nat.toList_repr]
    simp [intText, Int.negSucc_lt_zero]

theorem isPySpace_of_isDigit {c : Char} (h : c.isDigit = true) : isPySpace c = false := by
  have hle : 48 ≤ c.toNat := (isDigit_bounds h).1
  have hne : c ≠ ' ' := by
    rintro rfl
    exact absurd h (by decide)
  have hrange : ¬ (9 ≤ c.toNat ∧ c.toNat ≤ 13) := by omega
  simp [isPySpace, hne, hrange]

/-- What `str` writes for an integer `int` reads as that integer. -/
theorem intOfString_toString (i : ℤ) : intOfString (toString i) = some i := by
  have hdigit : ∀ c ∈ Nat.toDigits 10 i.natAbs, c.isDigit = true := fun c hc =>
    Nat.isDigit_of_mem_toDigits (by omega) (by omega) hc
  have hspace : ∀ c ∈ intText i, isPySpace c = false := by
    intro c hc
    have hcases : c = '-' ∨ c ∈ Nat.toDigits 10 i.natAbs := by
      unfold intText at hc
      split_ifs at hc with hi
      · simpa using hc
      · exact .inr hc
    rcases hcases with rfl | hmem
    · decide
    · exact isPySpace_of_isDigit (hdigit c hmem)
  rw [intOfString, toList_toString_int, strip_of_forall hspace]
  unfold intText
  split_ifs with hi
  · simp only [readSigned, if_true, readDigits_toDigits, Option.map_some, Option.some.injEq]
    omega
  · obtain ⟨c, cs, hcs⟩ :=
      List.exists_cons_of_ne_nil (Nat.toDigits_ne_nil (n := i.natAbs) (b := 10))
    have hc : c.isDigit = true := hdigit c (by rw [hcs]; simp)
    have hminus : c ≠ '-' := by
      rintro rfl
      exact absurd hc (by decide)
    have hplus : c ≠ '+' := by
      rintro rfl
      exact absurd hc (by decide)
    rw [hcs, readSigned, if_neg hminus, if_neg hplus, ← hcs, readDigits_toDigits, Option.map_some,
      Option.some.injEq]
    omega

example : intOfString " +1_000\n" = some 1000 := by decide
example : intOfLiteral "-0x1F" = some (-31) := by decide

end IntLiterals

section Floats

/-- Underscores stand only between digits. -/
def dropUnderscores : Bool → List Char → Option (List Char)
  | _, [] => some []
  | afterDigit, c :: cs =>
    if c = '_' then
      if afterDigit ∧ (cs.head?.any Char.isDigit) then dropUnderscores false cs else none
    else (dropUnderscores c.isDigit cs).map (c :: ·)

/-- Digits with a point among, before or after them or without one, and an exponent. -/
def floatOfDigits (negative : Bool) (text : List Char) : Option Float :=
  let whole := text.takeWhile Char.isDigit
  let rest := text.dropWhile Char.isDigit
  let fraction := if rest.head? = some '.' then rest.tail.takeWhile Char.isDigit else []
  let rest := if rest.head? = some '.' then rest.tail.dropWhile Char.isDigit else rest
  let (exponent, rest) := readExponent rest
  if whole ++ fraction ≠ [] ∧ rest = [] then
    let x := scientific (Nat.ofDigitChars 10 (whole ++ fraction) 0)
      (exponent.getD 0 - fraction.length)
    some (if negative then -x else x)
  else none

def floatOfUnsigned (negative : Bool) (text : List Char) : Option Float :=
  let word := text.map Char.toLower
  if word = "inf".toList ∨ word = "infinity".toList then some (infinity negative)
  else if word = "nan".toList then some nan
  else floatOfDigits negative text

/-- `float(s)` -/
def floatOfString (s : String) : Option Float := do
  let text ← dropUnderscores false (strip s.toList)
  if text.head? = some '-' then floatOfUnsigned true text.tail
  else if text.head? = some '+' then floatOfUnsigned false text.tail
  else floatOfUnsigned false text

example : (floatOfString " 1_5.5e1 ").bind truncate? = some 155 := by decide +kernel

/-- From there on an integer rounds to more than the largest double. -/
def doubleLimit : ℕ := 2 ^ 1024 - 2 ^ 970

/-- `float(i)`, where it does not overflow. -/
def floatOfInt (i : ℤ) : Option Float :=
  if doubleLimit ≤ i.natAbs then none else some (Float.ofInt i)

/-- `str(x)` -/
def strOfFloat (x : Float) : String :=
  match FloatText.ofFloat x with
  | .decimal d => String.ofList d.text
  | .nan => "nan"
  | .infinity true => "-inf"
  | .infinity false => "inf"

def isZero (x : Float) : Bool := x.toModel.unpack matches .zero _

end Floats

namespace Value

/-- `int(value)`, where it does not raise. -/
def toInt? : Value → Option ℤ
  | .bool b => some b.toNat
  | .int i => some i
  | .float x => truncate? x
  | .str s => intOfString s
  | _ => Option.none

/-- `float(value)`, where it does not raise. -/
def toFloat? : Value → Option Float
  | .bool b => floatOfInt b.toNat
  | .int i => floatOfInt i
  | .float x => some x
  | .str s => floatOfString s
  | _ => Option.none

/-- `bool(value)` -/
def truth : Value → Bool
  | .none => false
  | .bool b => b
  | .int i => i ≠ 0
  | .float x => !isZero x
  | .str s => s ≠ ""
  | .list items => items.length ≠ 0
  | .tuple items => items.length ≠ 0
  | .dict members => members.length ≠ 0

/-- `str(value)` -/
def toStr (x : Externs) : Value → String
  | .none => "None"
  | .bool true => "True"
  | .bool false => "False"
  | .int i => toString i
  | .float x => strOfFloat x
  | .str s => s
  | value => x.display value

/-- What `iter(value)` goes through, unless it raises. -/
def iterate : Value → Option (List Value)
  | .str s => some (s.toList.map fun c => .str (String.singleton c))
  | .list items => some items
  | .tuple items => some items
  | .dict members => some (members.map fun p => .str p.1)
  | _ => Option.none

/-- `value[i]` -/
def index (value : Value) (i : ℕ) : Except Raised Value :=
  match value with
  | .str s =>
    match s.toList[i]? with
    | some c => .ok (.str (String.singleton c))
    | Option.none => .error .indexError
  | .list items => (items[i]?).elim (.error .indexError) .ok
  | .tuple items => (items[i]?).elim (.error .indexError) .ok
  | .dict _ => .error .keyError
  | _ => .error .typeError

/-- `value[key]` -/
def item (value : Value) (key : String) : Except Raised Value :=
  match value with
  | .dict members => (members.lookup key).elim (.error .keyError) .ok
  | _ => .error .typeError

/-- `value.items()` -/
def items : Value → Except Raised (List (String × Value))
  | .dict members => .ok members
  | _ => .error .attributeError

mutual

/-- The document `json.dumps` writes for a value. -/
def toTree : Value → JsonTree
  | .none => .null
  | .bool b => .bool b
  | .int i => .int i
  | .float x => .float (.ofFloat x)
  | .str s => .str s
  | .list items => .arr (toTrees items)
  | .tuple items => .arr (toTrees items)
  | .dict members => .obj (toMembers members)

def toTrees : List Value → List JsonTree
  | [] => []
  | value :: values => value.toTree :: toTrees values

def toMembers : List (String × Value) → List (String × JsonTree)
  | [] => []
  | (key, value) :: members => (key, value.toTree) :: toMembers members

end

mutual

/-- The value `json.loads` makes of a document: of a repeated key the last value. -/
def ofTree : JsonTree → Value
  | .null => .none
  | .bool b => .bool b
  | .int i => .int i
  | .float x => .float x.toFloat
  | .str s => .str s
  | .arr items => .list (ofTrees items)
  | .obj members => .dict (Dict.ofList (ofMembers members)).entries

def ofTrees : List JsonTree → List Value
  | [] => []
  | tree :: trees => ofTree tree :: ofTrees trees

def ofMembers : List (String × JsonTree) → List (String × Value)
  | [] => []
  | (key, tree) :: members => (key, ofTree tree) :: ofMembers members

end

end Value

/-- `json.dumps` -/
def dumps (value : Value) : String := String.ofList value.toTree.render

/-- `json.loads` -/
def loads (text : String) : Except Raised Value :=
  match JsonTree.read text.toList with
  | some tree => .ok (Value.ofTree tree)
  | none => .error .jsonDecodeError

namespace Value

/-- What a value is after a JSON text. -/
def viaJson (value : Value) : Value := ofTree value.toTree

@[simp] theorem viaJson_none : Value.none.viaJson = .none := rfl
@[simp] theorem viaJson_bool (b : Bool) : (Value.bool b).viaJson = .bool b := rfl
@[simp] theorem viaJson_int (i : ℤ) : (Value.int i).viaJson = .int i := rfl
@[simp] theorem viaJson_str (s : String) : (Value.str s).viaJson = .str s := rfl

theorem ofTrees_toTrees (values : List Value) : ofTrees (toTrees values) = values.map viaJson := by
  induction values with
  | nil => rfl
  | cons value values ih => rw [toTrees, ofTrees, ih, List.map_cons, viaJson]

theorem ofMembers_toMembers (members : List (String × Value)) :
    ofMembers (toMembers members) = members.map fun p => (p.1, p.2.viaJson) := by
  induction members with
  | nil => rfl
  | cons p members ih => rw [toMembers, ofMembers, ih, List.map_cons, viaJson]

@[simp] theorem viaJson_list (values : List Value) :
    (Value.list values).viaJson = .list (values.map viaJson) := by
  rw [viaJson, toTree, ofTree, ofTrees_toTrees]

/-- A tuple comes back as a list. -/
@[simp] theorem viaJson_tuple (values : List Value) :
    (Value.tuple values).viaJson = .list (values.map viaJson) := by
  rw [viaJson, toTree, ofTree, ofTrees_toTrees]

theorem viaJson_dict {members : List (String × Value)} (h : (members.map Prod.fst).Nodup) :
    (Value.dict members).viaJson = .dict (members.map fun p => (p.1, p.2.viaJson)) := by
  have hkeys : ((members.map fun p => (p.1, p.2.viaJson)).map Prod.fst).Nodup := by
    rwa [List.map_map]
  rw [viaJson, toTree, ofTree, ofMembers_toMembers, Dict.entries_ofList hkeys]

end Value

theorem loads_dumps (value : Value) : loads (dumps value) = .ok value.viaJson := by
  simp [loads, dumps, JsonTree.read_render, Value.viaJson]

end Tdi.Cli
