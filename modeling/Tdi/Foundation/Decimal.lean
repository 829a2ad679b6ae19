import Mathlib

/-!
# Numbers in decimal notation

The text of an integer, or of a number with a fraction or an exponent, and its reader.
Digits that follow the point are kept one by one, so that reading a text gives back
what was written. The last section is about the doubles that such a number stands
for, and the shortest one that stands for a double.
-/
namespace Tdi.Foundation

/-- A number that is written with a fraction, with an exponent or with both. -/
structure Decimal where
  negative : Bool
  whole : ℕ
  fraction : List (Fin 10)
  exponent : Option ℤ
  marked : fraction ≠ [] ∨ exponent.isSome = true

inductive Number where
  | int (i : ℤ)
  | decimal (d : Decimal)

section Texts

def signText (negative : Bool) : List Char := if negative then ['-'] else []

def intText (i : ℤ) : List Char :=
  if i < 0 then '-' :: Nat.toDigits 10 i.natAbs else Nat.toDigits 10 i.natAbs

def fractionText (fraction : List (Fin 10)) : List Char :=
  if fraction = [] then [] else '.' :: fraction.map fun d : Fin 10 => Nat.digitChar d

/-- At least two digits. -/
def powerText (power : ℕ) : List Char :=
  (if power < 10 then ['0'] else []) ++ Nat.toDigits 10 power

def exponentText : Option ℤ → List Char
  | none => []
  | some e => 'e' :: (if e < 0 then '-' else '+') :: powerText e.natAbs

def Decimal.text (d : Decimal) : List Char :=
  signText d.negative ++
    (Nat.toDigits 10 d.whole ++ (fractionText d.fraction ++ exponentText d.exponent))

def Number.text : Number → List Char
  | int i => intText i
  | decimal d => d.text

end Texts

section Readers

def digitOf (c : Char) : Fin 10 := Fin.ofNat 10 (c.toNat - 48)

/-- A number starts with a zero only if it is zero. -/
def readNat (text : List Char) : Option (ℕ × List Char) :=
  if text.head? = some '0' then some (0, text.tail)
  else if text.takeWhile Char.isDigit = [] then none
  else some (Nat.ofDigitChars 10 (text.takeWhile Char.isDigit) 0, text.dropWhile Char.isDigit)

/-- The digits after a point; a point without digits is not read. -/
def readFraction (text : List Char) : List (Fin 10) × List Char :=
  if text.head? = some '.' ∧ text.tail.takeWhile Char.isDigit ≠ [] then
    ((text.tail.takeWhile Char.isDigit).map digitOf, text.tail.dropWhile Char.isDigit)
  else ([], text)

/-- Any digits. -/
def readPower (text : List Char) : Option (ℕ × List Char) :=
  if text.takeWhile Char.isDigit = [] then none
  else some (Nat.ofDigitChars 10 (text.takeWhile Char.isDigit) 0, text.dropWhile Char.isDigit)

def readSignedPower (text : List Char) : Option (ℤ × List Char) :=
  if text.head? = some '-' then (readPower text.tail).map fun p => (-(p.1 : ℤ), p.2)
  else if text.head? = some '+' then (readPower text.tail).map fun p => ((p.1 : ℤ), p.2)
  else (readPower text).map fun p => ((p.1 : ℤ), p.2)

/-- The letter without a power after it is not read. -/
def readExponent (text : List Char) : Option ℤ × List Char :=
  if text.head? = some 'e' ∨ text.head? = some 'E' then
    match readSignedPower text.tail with
    | some (e, rest) => (some e, rest)
    | none => (none, text)
  else (none, text)

/-- After the sign. -/
def readUnsigned (negative : Bool) (text : List Char) : Option (Number × List Char) := do
  let (whole, rest) ← readNat text
  let (fraction, rest) := readFraction rest
  let (exponent, rest) := readExponent rest
  if marked : fraction ≠ [] ∨ exponent.isSome = true then
    some (.decimal ⟨negative, whole, fraction, exponent, marked⟩, rest)
  else some (.int (if negative then -(whole : ℤ) else whole), rest)

def readNumber (text : List Char) : Option (Number × List Char) :=
  if text.head? = some '-' then readUnsigned true text.tail else readUnsigned false text

end Readers

section ReadBack

/-- Nothing that would go on with a number. -/
def EndsNumber (rest : List Char) : Prop :=
  ∀ c, rest.head? = some c → c.isDigit = false ∧ c ≠ '.' ∧ c ≠ 'e' ∧ c ≠ 'E'

def EndsDigits (rest : List Char) : Prop := ∀ c, rest.head? = some c → c.isDigit = false

variable {rest : List Char}

theorem EndsNumber.endsDigits (h : EndsNumber rest) : EndsDigits rest := fun c hc => (h c hc).1

theorem endsDigits_cons {c : Char} (h : c.isDigit = false) : EndsDigits (c :: rest) := by
  intro d hd
  obtain rfl : c = d := by simpa using hd
  exact h

theorem isDigit_digitChar {n : ℕ} (h : n < 10) : (Nat.digitChar n).isDigit = true := by
  interval_cases n <;> rfl

theorem digitOf_digitChar (d : Fin 10) : digitOf (Nat.digitChar d) = d := by
  fin_cases d <;> rfl

theorem isDigit_of_mem_toDigits {n : ℕ} {c : Char} (h : c ∈ Nat.toDigits 10 n) :
    c.isDigit = true :=
  Nat.isDigit_of_mem_toDigits (by omega) (by omega) h

theorem takeWhile_isDigit_append {digits : List Char} (h : ∀ c ∈ digits, c.isDigit = true)
    (hrest : EndsDigits rest) : (digits ++ rest).takeWhile Char.isDigit = digits := by
  have hstop : rest.takeWhile Char.isDigit = [] := by
    cases rest with
    | nil => rfl
    | cons c rest => simp [hrest c rfl]
  rw [List.takeWhile_append_of_pos h, hstop, List.append_nil]

theorem dropWhile_isDigit_append {digits : List Char} (h : ∀ c ∈ digits, c.isDigit = true)
    (hrest : EndsDigits rest) : (digits ++ rest).dropWhile Char.isDigit = rest := by
  have hstop : rest.dropWhile Char.isDigit = rest := by
    cases rest with
    | nil => rfl
    | cons c rest => simp [hrest c rfl]
  rw [List.dropWhile_append_of_pos h, hstop]

theorem head_toDigits {n : ℕ} (h : n ≠ 0) : (Nat.toDigits 10 n).head? ≠ some '0' := by
  induction n using Nat.strong_induction_on with
  | h n ih =>
    by_cases hlt : n < 10
    · rw [Nat.toDigits_of_lt_base hlt]
      simpa using h
    · have hdiv : n / 10 ≠ 0 := by omega
      rw [Nat.toDigits_of_base_le (by omega) (by omega), List.head?_append_of_ne_nil _
        Nat.toDigits_ne_nil]
      exact ih (n / 10) (by omega) hdiv

theorem head_toDigits_isDigit {n : ℕ} {c : Char} (h : (Nat.toDigits 10 n).head? = some c) :
    c.isDigit = true :=
  isDigit_of_mem_toDigits (List.mem_of_mem_head? h)

theorem readNat_toDigits (n : ℕ) (hrest : EndsDigits rest) :
    readNat (Nat.toDigits 10 n ++ rest) = some (n, rest) := by
  by_cases hn : n = 0
  · subst hn
    simp [readNat]
  · have hdigit : ∀ c ∈ Nat.toDigits 10 n, c.isDigit = true := fun c hc =>
      isDigit_of_mem_toDigits hc
    have hhead : (Nat.toDigits 10 n ++ rest).head? ≠ some '0' := by
      rw [List.head?_append_of_ne_nil _ Nat.toDigits_ne_nil]
      exact head_toDigits hn
    rw [readNat, if_neg hhead, takeWhile_isDigit_append hdigit hrest,
      dropWhile_isDigit_append hdigit hrest]
    simp

theorem readFraction_of_ne (h : rest.head? ≠ some '.') : readFraction rest = ([], rest) := by
  simp [readFraction, h]

theorem readFraction_fractionText (fraction : List (Fin 10)) (hdigits : EndsDigits rest)
    (hpoint : rest.head? ≠ some '.') :
    readFraction (fractionText fraction ++ rest) = (fraction, rest) := by
  by_cases hf : fraction = []
  · simpa [fractionText, hf] using readFraction_of_ne hpoint
  · have hdigit : ∀ c ∈ fraction.map fun d : Fin 10 => Nat.digitChar d, c.isDigit = true := by
      intro c hc
      obtain ⟨d, -, rfl⟩ := List.mem_map.mp hc
      exact isDigit_digitChar d.isLt
    have hread : (fraction.map fun d : Fin 10 => Nat.digitChar d).map digitOf = fraction := by
      simp [Function.comp_def, digitOf_digitChar]
    simp only [fractionText, if_neg hf, readFraction, List.cons_append, List.head?_cons,
      List.tail_cons, takeWhile_isDigit_append hdigit hdigits,
      dropWhile_isDigit_append hdigit hdigits, hread]
    simp [hf]

theorem readPower_powerText (e : ℕ) (hrest : EndsDigits rest) :
    readPower (powerText e ++ rest) = some (e, rest) := by
  have hdigit : ∀ c ∈ powerText e, c.isDigit = true := by
    intro c hc
    rcases List.mem_append.mp hc with hzero | hmem
    · split_ifs at hzero
      · obtain rfl : c = '0' := by simpa using hzero
        rfl
      · cases hzero
    · exact isDigit_of_mem_toDigits hmem
  have hvalue : Nat.ofDigitChars 10 (powerText e) 0 = e := by
    unfold powerText
    split_ifs <;> simp [Nat.ofDigitChars_cons]
  have hne : powerText e ≠ [] := by simp [powerText]
  rw [readPower, takeWhile_isDigit_append hdigit hrest, dropWhile_isDigit_append hdigit hrest,
    hvalue, if_neg hne]

theorem readExponent_of_endsNumber (h : EndsNumber rest) : readExponent rest = (none, rest) := by
  have hletter : ¬ (rest.head? = some 'e' ∨ rest.head? = some 'E') := by
    rintro (he | he)
    · exact (h _ he).2.2.1 rfl
    · exact (h _ he).2.2.2 rfl
  rw [readExponent, if_neg hletter]

theorem readExponent_exponentText (exponent : Option ℤ) (hrest : EndsNumber rest) :
    readExponent (exponentText exponent ++ rest) = (exponent, rest) := by
  cases exponent with
  | none => exact readExponent_of_endsNumber hrest
  | some e =>
    have hpower := readPower_powerText e.natAbs hrest.endsDigits
    have hsigned : readSignedPower ((if e < 0 then '-' else '+') :: (powerText e.natAbs ++ rest)) =
        some (e, rest) := by
      split_ifs with he
      · simp [readSignedPower, hpower, abs_of_neg he]
      · simp [readSignedPower, hpower, abs_of_nonneg (not_lt.mp he)]
    simp [exponentText, readExponent, hsigned]

/-- What follows the digits before the point. -/
theorem endsDigits_fractionText (fraction : List (Fin 10)) (hrest : EndsDigits rest) :
    EndsDigits (fractionText fraction ++ rest) := by
  unfold fractionText
  split_ifs with hf
  · exact hrest
  · exact endsDigits_cons rfl

theorem endsDigits_exponentText (exponent : Option ℤ) (hrest : EndsNumber rest) :
    EndsDigits (exponentText exponent ++ rest) := by
  cases exponent with
  | none => exact hrest.endsDigits
  | some e => exact endsDigits_cons rfl

theorem head_exponentText_ne_point (exponent : Option ℤ) (hrest : EndsNumber rest) :
    (exponentText exponent ++ rest).head? ≠ some '.' := by
  cases exponent with
  | none => exact fun h => (hrest _ h).2.1 rfl
  | some e => simp [exponentText]

theorem readUnsigned_digits (negative : Bool) (n : ℕ) (hrest : EndsNumber rest) :
    readUnsigned negative (Nat.toDigits 10 n ++ rest) =
      some (.int (if negative then -(n : ℤ) else n), rest) := by
  have hfraction : readFraction rest = ([], rest) :=
    readFraction_of_ne fun h => (hrest _ h).2.1 rfl
  simp [readUnsigned, readNat_toDigits n hrest.endsDigits, hfraction,
    readExponent_of_endsNumber hrest]

theorem readUnsigned_decimal (d : Decimal) (hrest : EndsNumber rest) :
    readUnsigned d.negative (Nat.toDigits 10 d.whole ++
      (fractionText d.fraction ++ (exponentText d.exponent ++ rest))) =
        some (.decimal d, rest) := by
  have hexponent := endsDigits_exponentText d.exponent hrest
  have hwhole := readNat_toDigits d.whole (endsDigits_fractionText d.fraction hexponent)
  have hfraction := readFraction_fractionText d.fraction hexponent
    (head_exponentText_ne_point d.exponent hrest)
  have hread := readExponent_exponentText d.exponent hrest
  simp [readUnsigned, hwhole, hfraction, hread, d.marked]

/-- A sign tells a number that starts with a digit which way to go. -/
theorem readNumber_signText (negative : Bool) (n : ℕ) (rest : List Char) :
    readNumber (signText negative ++ (Nat.toDigits 10 n ++ rest)) =
      readUnsigned negative (Nat.toDigits 10 n ++ rest) := by
  cases negative with
  | true => simp [signText, readNumber]
  | false =>
    have hhead : (Nat.toDigits 10 n ++ rest).head? ≠ some '-' := by
      rw [List.head?_append_of_ne_nil _ Nat.toDigits_ne_nil]
      intro h
      exact absurd (head_toDigits_isDigit h) (by decide)
    rw [signText, if_neg Bool.false_ne_true, List.nil_append, readNumber, if_neg hhead]

theorem intText_eq_signText (i : ℤ) :
    intText i = signText (i < 0) ++ (Nat.toDigits 10 i.natAbs ++ []) := by
  by_cases hi : i < 0 <;> simp [intText, signText, hi]

/-- Reading the text of a number gives it back. -/
theorem readNumber_text (number : Number) (hrest : EndsNumber rest) :
    readNumber (number.text ++ rest) = some (number, rest) := by
  cases number with
  | int i =>
    have hi : (if i < 0 then -(i.natAbs : ℤ) else i.natAbs) = i := by split_ifs <;> omega
    rw [Number.text, intText_eq_signText, List.append_nil, List.append_assoc, readNumber_signText,
      readUnsigned_digits _ _ hrest]
    simpa using hi
  | decimal d =>
    rw [Number.text, Decimal.text, List.append_assoc, List.append_assoc, List.append_assoc,
      readNumber_signText, readUnsigned_decimal d hrest]

/-- The text of a number is a sign and digits, and what goes on from there. -/
theorem text_eq_digits (number : Number) :
    ∃ negative n rest, number.text = signText negative ++ (Nat.toDigits 10 n ++ rest) := by
  cases number with
  | int i => exact ⟨i < 0, i.natAbs, [], intText_eq_signText i⟩
  | decimal d => exact ⟨d.negative, d.whole, _, rfl⟩

/-- The text of a number starts with a digit, or with a sign and a digit. -/
theorem head_text (number : Number) :
    ∃ c text, c.isDigit = true ∧ (number.text = c :: text ∨ number.text = '-' :: c :: text) := by
  obtain ⟨negative, n, rest, htext⟩ := text_eq_digits number
  obtain ⟨c, digits, hdigits⟩ := List.exists_cons_of_ne_nil (Nat.toDigits_ne_nil (n := n) (b := 10))
  refine ⟨c, digits ++ rest, head_toDigits_isDigit (n := n) (by rw [hdigits]; rfl), ?_⟩
  rw [htext, hdigits]
  cases negative with
  | true => exact .inr rfl
  | false => exact .inl rfl

end ReadBack

section Doubles

/-- `mantissa * 10 ^ exponent`, rounded to the nearest double. -/
def scientific (mantissa : ℕ) (exponent : ℤ) : Float :=
  Float.ofScientific mantissa (exponent < 0) exponent.natAbs

/-- The number that these digits go on. -/
def appendDigits (n : ℕ) (digits : List (Fin 10)) : ℕ := digits.foldl (fun n d => 10 * n + d) n

def Decimal.toFloat (d : Decimal) : Float :=
  let x := scientific (appendDigits d.whole d.fraction) (d.exponent.getD 0 - d.fraction.length)
  if d.negative then -x else x

def nan : Float := .ofModel (.pack .notANumber)

def infinity (negative : Bool) : Float :=
  .ofModel (.pack (.infinity (if negative then .negative else .positive)))

/-- The integer towards zero. -/
def truncate? (x : Float) : Option ℤ :=
  match x.toModel.unpack with
  | .finite sign mantissa exponent _ =>
    some (Float.Model.UnpackedFloat.roundToInt sign mantissa exponent)
  | .zero _ => some 0
  | .infinity _ => none
  | .notANumber => none

/-- The two multiples of a power of ten next to a number, the nearer one first. -/
def multiples (q : ℚ) (exponent : ℤ) : List ℕ :=
  let below := ⌊q / 10 ^ exponent⌋₊
  let excess := q / 10 ^ exponent - below
  if excess < 1 / 2 ∨ excess = 1 / 2 ∧ below % 2 = 0 then [below, below + 1] else [below + 1, below]

/-- The fewest digits, and their power of ten, that are read as the double `x`, which is
the number `q`. Seventeen are always enough. -/
def shortest (x : Float) (q : ℚ) : ℕ × ℤ :=
  let withDigits (n : ℕ) : Option (ℕ × ℤ) :=
    let exponent := Int.log 10 q - n
    ((multiples q exponent).find? fun m => scientific m exponent = x).map fun m => (m, exponent)
  ((List.range 17).findSome? withDigits).getD (0, 0)

theorem marked_atLeastOne (fraction : List (Fin 10)) (exponent : Option ℤ) :
    (if fraction = [] then [0] else fraction) ≠ [] ∨ exponent.isSome = true := by
  left
  split_ifs with h
  · simp
  · exact h

/-- Digits with the point after so many of them, with an exponent where it is far off. -/
def layOut (negative : Bool) (digits : List (Fin 10)) (point : ℤ) : Decimal :=
  if -4 < point ∧ point ≤ 16 then
    let places := (max point 1).toNat
    let digits := List.replicate (1 - point).toNat 0 ++ digits
    let fraction := digits.drop places
    { negative
      whole := appendDigits 0 (digits.take places ++ List.replicate (places - digits.length) 0)
      fraction := if fraction = [] then [0] else fraction
      exponent := none
      marked := marked_atLeastOne fraction none }
  else
    { negative
      whole := digits.headD 0
      fraction := digits.tail
      exponent := some (point - 1)
      marked := .inr rfl }

/-- How a double is written. -/
inductive FloatText where
  | decimal (d : Decimal)
  | nan
  | infinity (negative : Bool)

def FloatText.ofFloat (x : Float) : FloatText :=
  match x.toModel.unpack with
  | .finite sign mantissa exponent _ =>
    let (m, e) := shortest x.abs (mantissa * 2 ^ exponent)
    let digits := Nat.digits 10 m
    .decimal (layOut (sign matches .negative)
      ((digits.dropWhile (· = 0)).reverse.map (Fin.ofNat 10)) (digits.length + e))
  | .zero sign => .decimal (layOut (sign matches .negative) [] 1)
  | .infinity sign => .infinity (sign matches .negative)
  | .notANumber => .nan

def FloatText.toFloat : FloatText → Float
  | decimal d => d.toFloat
  | nan => Foundation.nan
  | infinity negative => Foundation.infinity negative

end Doubles

end Tdi.Foundation
