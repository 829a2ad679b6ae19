import Tdi.Foundation.Decimal

/-!
# JSON texts

Documents, written with `", "` and `": "` between items and with everything outside
printable ASCII escaped, and read back by a reader that takes any white space. The
numbers may be `NaN` and the infinities, too. Reading a written document gives it back.

The reader's fuel bounds its nesting and its loops together; the length of what
it is to read is always enough.
-/
namespace Tdi.Foundation

inductive JsonTree where
  | null
  | bool (b : Bool)
  | int (i : ℤ)
  | float (x : FloatText)
  | str (s : String)
  | arr (items : List JsonTree)
  | obj (members : List (String × JsonTree))

namespace JsonTree

/-- The letter after the backslash, for the characters that have one. -/
def shortEscape? (c : Char) : Option Char :=
  if c = '"' then some '"'
  else if c = '\\' then some '\\'
  else if c = '\n' then some 'n'
  else if c = '\r' then some 'r'
  else if c = '\t' then some 't'
  else if c = '\x08' then some 'b'
  else if c = '\x0c' then some 'f'
  else none

def unescape? (letter : Char) : Option Char :=
  if letter = '"' then some '"'
  else if letter = '\\' then some '\\'
  else if letter = '/' then some '/'
  else if letter = 'n' then some '\n'
  else if letter = 'r' then some '\r'
  else if letter = 't' then some '\t'
  else if letter = 'b' then some '\x08'
  else if letter = 'f' then some '\x0c'
  else none

def hexDigits (unit : ℕ) : List Char :=
  [Nat.digitChar (unit / 4096 % 16), Nat.digitChar (unit / 256 % 16),
    Nat.digitChar (unit / 16 % 16), Nat.digitChar (unit % 16)]

def unicodeEscape (unit : ℕ) : List Char := '\\' :: 'u' :: hexDigits unit

def escapeChar (c : Char) : List Char :=
  match shortEscape? c with
  | some letter => ['\\', letter]
  | none =>
    if 32 ≤ c.toNat ∧ c.toNat ≤ 126 then [c]
    else if c.toNat < 0x10000 then unicodeEscape c.toNat
    -- a surrogate pair
    else unicodeEscape (0xd800 + (c.toNat - 0x10000) / 1024) ++
      unicodeEscape (0xdc00 + (c.toNat - 0x10000) % 1024)

def quote (s : String) : List Char := '"' :: (s.toList.flatMap escapeChar ++ ['"'])

def hexValue (c : Char) : Option ℕ :=
  if '0' ≤ c ∧ c ≤ '9' then some (c.toNat - 48)
  else if 'a' ≤ c ∧ c ≤ 'f' then some (c.toNat - 87)
  else if 'A' ≤ c ∧ c ≤ 'F' then some (c.toNat - 55)
  else none

def readHex : List Char → Option (ℕ × List Char)
  | a :: b :: c :: d :: rest => do
    let a ← hexValue a
    let b ← hexValue b
    let c ← hexValue c
    let d ← hexValue d
    some (((a * 16 + b) * 16 + c) * 16 + d, rest)
  | _ => none

/-- After `\u`. A surrogate that has no partner is not a character. -/
def readUnicode (text : List Char) : Option (Char × List Char) := do
  let (unit, rest) ← readHex text
  if 0xd800 ≤ unit ∧ unit < 0xdc00 then
    match rest with
    | '\\' :: 'u' :: rest =>
      let (low, rest) ← readHex rest
      if 0xdc00 ≤ low ∧ low < 0xe000 then
        some (Char.ofNat (0x10000 + (unit - 0xd800) * 1024 + (low - 0xdc00)), rest)
      else none
    | _ => none
  else if 0xdc00 ≤ unit ∧ unit < 0xe000 then none
  else some (Char.ofNat unit, rest)

/-- One character inside a string, escaped or not. -/
def readChar : List Char → Option (Char × List Char)
  | [] => none
  | c :: rest =>
    if c = '\\' then
      match rest with
      | [] => none
      | letter :: rest =>
        if letter = 'u' then readUnicode rest
        else (unescape? letter).map fun c => (c, rest)
    else if c.toNat < 32 then none
    else some (c, rest)

/-- After the opening quote. -/
def readString : ℕ → List Char → Option (List Char × List Char)
  | 0, _ => none
  | fuel + 1, text =>
    if text.head? = some '"' then some ([], text.tail)
    else do
      let (c, rest) ← readChar text
      let (s, rest) ← readString fuel rest
      some (c :: s, rest)

theorem hexValue_digitChar : ∀ d < 16, hexValue (Nat.digitChar d) = some d := by decide

theorem unescape?_shortEscape? {c letter : Char} (h : shortEscape? c = some letter) :
    unescape? letter = some c ∧ letter ≠ 'u' := by
  unfold shortEscape? at h
  split_ifs at h <;> cases h <;> subst_vars <;> decide

theorem readHex_hexDigits {unit : ℕ} (h : unit < 0x10000) (rest : List Char) :
    readHex (hexDigits unit ++ rest) = some (unit, rest) := by
  have hdigit : ∀ n, hexValue (Nat.digitChar (n % 16)) = some (n % 16) := fun n =>
    hexValue_digitChar _ (Nat.mod_lt n (by omega))
  simp only [hexDigits, List.cons_append, List.nil_append, readHex, hdigit, Option.bind_eq_bind,
    Option.bind_some, Option.some.injEq, Prod.mk.injEq, and_true]
  omega

/-- The numbers of characters are those outside the surrogates. -/
theorem toNat_scalar (c : Char) : c.toNat < 0xd800 ∨ 0xe000 ≤ c.toNat ∧ c.toNat < 0x110000 := by
  have hvalid : c.toNat.isValidChar := c.valid
  simp only [Nat.isValidChar] at hvalid
  omega

theorem readUnicode_hexDigits {c : Char} (h : c.toNat < 0x10000) (rest : List Char) :
    readUnicode (hexDigits c.toNat ++ rest) = some (c, rest) := by
  have hscalar := toNat_scalar c
  have hhigh : ¬ (0xd800 ≤ c.toNat ∧ c.toNat < 0xdc00) := by omega
  have hlow : ¬ (0xdc00 ≤ c.toNat ∧ c.toNat < 0xe000) := by omega
  simp [readUnicode, readHex_hexDigits h, hhigh, hlow, Char.ofNat_toNat]

theorem readUnicode_pair {high low : ℕ} (hhigh : 0xd800 ≤ high ∧ high < 0xdc00)
    (hlow : 0xdc00 ≤ low ∧ low < 0xe000) (rest : List Char) :
    readUnicode (hexDigits high ++ (unicodeEscape low ++ rest)) =
      some (Char.ofNat (0x10000 + (high - 0xd800) * 1024 + (low - 0xdc00)), rest) := by
  have hh : high < 0x10000 := by omega
  have hl : low < 0x10000 := by omega
  simp [readUnicode, unicodeEscape, readHex_hexDigits hh, readHex_hexDigits hl, hhigh, hlow]

theorem readUnicode_supplementary {c : Char} (h : ¬ c.toNat < 0x10000) (rest : List Char) :
    readUnicode (hexDigits (0xd800 + (c.toNat - 0x10000) / 1024) ++
      (unicodeEscape (0xdc00 + (c.toNat - 0x10000) % 1024) ++ rest)) = some (c, rest) := by
  have hscalar := toNat_scalar c
  have hsum : 0x10000 + (0xd800 + (c.toNat - 0x10000) / 1024 - 0xd800) * 1024 +
      (0xdc00 + (c.toNat - 0x10000) % 1024 - 0xdc00) = c.toNat := by omega
  rw [readUnicode_pair (by omega) (by omega), hsum, Char.ofNat_toNat]

theorem readChar_escapeChar (c : Char) (rest : List Char) :
    readChar (escapeChar c ++ rest) = some (c, rest) := by
  unfold escapeChar
  cases hs : shortEscape? c with
  | some letter =>
    obtain ⟨hletter, hu⟩ := unescape?_shortEscape? hs
    simp [readChar, hletter, hu]
  | none =>
    have hback : c ≠ '\\' := by
      rintro rfl
      cases hs
    simp only
    split_ifs with hplain hbmp
    · simp [readChar, hback, hplain.1]
    · simp [readChar, unicodeEscape, readUnicode_hexDigits hbmp]
    · have hpair := readUnicode_supplementary hbmp rest
      simpa [readChar, unicodeEscape] using hpair

/-- An escape never starts with a quote. -/
theorem head_escapeChar (c : Char) (rest : List Char) :
    (escapeChar c ++ rest).head? ≠ some '"' := by
  unfold escapeChar
  cases hs : shortEscape? c with
  | some letter => simp
  | none =>
    have hquote : c ≠ '"' := by
      rintro rfl
      cases hs
    simp only
    split_ifs <;> simp [hquote, unicodeEscape]

theorem length_le_flatMap_escapeChar (s : List Char) :
    s.length ≤ (s.flatMap escapeChar).length := by
  induction s with
  | nil => simp
  | cons c s ih =>
    have hc : 1 ≤ (escapeChar c).length := by
      unfold escapeChar
      split
      · simp
      · split_ifs <;> simp [unicodeEscape, hexDigits]
    simp only [List.length_cons, List.flatMap_cons, List.length_append]
    omega

theorem readString_flatMap_escapeChar (s : List Char) {fuel : ℕ} (hfuel : s.length < fuel)
    (rest : List Char) :
    readString fuel (s.flatMap escapeChar ++ '"' :: rest) = some (s, rest) := by
  induction s generalizing fuel with
  | nil =>
    obtain ⟨fuel, rfl⟩ := Nat.exists_eq_add_of_lt hfuel
    simp [readString]
  | cons c s ih =>
    cases fuel with
    | zero => simp at hfuel
    | succ fuel =>
      have hs : readString fuel (s.flatMap escapeChar ++ '"' :: rest) = some (s, rest) :=
        ih (by simpa using hfuel)
      rw [List.flatMap_cons, List.append_assoc, readString, if_neg (head_escapeChar c _),
        readChar_escapeChar]
      simp [hs]

/-- What may follow a value in a written document. -/
def Delimited (rest : List Char) : Prop :=
  ∀ c, rest.head? = some c → c = ',' ∨ c = ']' ∨ c = '}'

theorem Delimited.endsNumber {rest : List Char} (h : Delimited rest) : EndsNumber rest := by
  intro c hc
  rcases h c hc with rfl | rfl | rfl <;> decide

def floatText : FloatText → List Char
  | .decimal d => d.text
  | .nan => ['N', 'a', 'N']
  | .infinity negative => signText negative ++ ['I', 'n', 'f', 'i', 'n', 'i', 't', 'y']

def isSpace (c : Char) : Bool := c = ' ' ∨ c = '\t' ∨ c = '\n' ∨ c = '\r'

def skipSpaces (text : List Char) : List Char := text.dropWhile isSpace

def readKeyword (text : List Char) : Option (JsonTree × List Char) :=
  if ['n', 'u', 'l', 'l'] <+: text then some (.null, text.drop 4)
  else if ['t', 'r', 'u', 'e'] <+: text then some (.bool true, text.drop 4)
  else if ['f', 'a', 'l', 's', 'e'] <+: text then some (.bool false, text.drop 5)
  else if ['N', 'a', 'N'] <+: text then some (.float .nan, text.drop 3)
  else if floatText (.infinity false) <+: text then some (.float (.infinity false), text.drop 8)
  else none

def ofNumber : Number → JsonTree
  | .int i => .int i
  | .decimal d => .float (.decimal d)

/-- What starts with a sign or a digit. -/
def readNumeral (text : List Char) : Option (JsonTree × List Char) :=
  if floatText (.infinity true) <+: text then some (.float (.infinity true), text.drop 9)
  else (readNumber text).map fun p => (ofNumber p.1, p.2)

mutual

def render : JsonTree → List Char
  | .null => ['n', 'u', 'l', 'l']
  | .bool true => ['t', 'r', 'u', 'e']
  | .bool false => ['f', 'a', 'l', 's', 'e']
  | .int i => intText i
  | .float x => floatText x
  | .str s => quote s
  | .arr [] => ['[', ']']
  | .arr (item :: items) => '[' :: (render item ++ renderItems items)
  | .obj [] => ['{', '}']
  | .obj ((k, v) :: members) =>
    '{' :: (quote k ++ ':' :: ' ' :: (render v ++ renderMembers members))

/-- The items after the first, and the closing bracket. -/
def renderItems : List JsonTree → List Char
  | [] => [']']
  | item :: items => ',' :: ' ' :: (render item ++ renderItems items)

def renderMembers : List (String × JsonTree) → List Char
  | [] => ['}']
  | (k, v) :: members =>
    ',' :: ' ' :: (quote k ++ ':' :: ' ' :: (render v ++ renderMembers members))

end

mutual

def readValue : ℕ → List Char → Option (JsonTree × List Char)
  | 0, _ => none
  | fuel + 1, text =>
    match skipSpaces text with
    | [] => none
    | c :: rest =>
      if c = '"' then do
        let (s, rest) ← readString fuel rest
        some (.str (String.ofList s), rest)
      else if c = '[' then
        if (skipSpaces rest).head? = some ']' then some (.arr [], (skipSpaces rest).tail)
        else do
          let (item, rest) ← readValue fuel rest
          let (items, rest) ← readItems fuel rest
          some (.arr (item :: items), rest)
      else if c = '{' then
        if (skipSpaces rest).head? = some '}' then some (.obj [], (skipSpaces rest).tail)
        else do
          let (member, rest) ← readMember fuel rest
          let (members, rest) ← readMembers fuel rest
          some (.obj (member :: members), rest)
      else if c = '-' ∨ c.isDigit then readNumeral (c :: rest)
      else readKeyword (c :: rest)

def readItems : ℕ → List Char → Option (List JsonTree × List Char)
  | 0, _ => none
  | fuel + 1, text =>
    match skipSpaces text with
    | [] => none
    | c :: rest =>
      if c = ']' then some ([], rest)
      else if c = ',' then do
        let (item, rest) ← readValue fuel rest
        let (items, rest) ← readItems fuel rest
        some (item :: items, rest)
      else none

def readMember : ℕ → List Char → Option ((String × JsonTree) × List Char)
  | 0, _ => none
  | fuel + 1, text =>
    match skipSpaces text with
    | [] => none
    | c :: rest =>
      if c = '"' then do
        let (k, rest) ← readString fuel rest
        if (skipSpaces rest).head? = some ':' then
          let (v, rest) ← readValue fuel (skipSpaces rest).tail
          some ((String.ofList k, v), rest)
        else none
      else none

def readMembers : ℕ → List Char → Option (List (String × JsonTree) × List Char)
  | 0, _ => none
  | fuel + 1, text =>
    match skipSpaces text with
    | [] => none
    | c :: rest =>
      if c = '}' then some ([], rest)
      else if c = ',' then do
        let (member, rest) ← readMember fuel rest
        let (members, rest) ← readMembers fuel rest
        some (member :: members, rest)
      else none

end

/-- A whole text. -/
def read (text : List Char) : Option JsonTree := do
  let (v, rest) ← readValue (text.length + 1) text
  if skipSpaces rest = [] then some v else none

/-- The characters a written value starts with. -/
def startsValue (c : Char) : Bool :=
  c = '"' ∨ c = '[' ∨ c = '{' ∨ c = '-' ∨ c = 'n' ∨ c = 't' ∨ c = 'f' ∨ c = 'N' ∨ c = 'I' ∨
    c.isDigit

theorem render_ofNumber (number : Number) : render (ofNumber number) = number.text := by
  cases number <;> rw [ofNumber, render] <;> rfl

theorem startsValue_of_head {c : Char} (h : c = '-' ∨ c.isDigit = true) : startsValue c = true := by
  rcases h with rfl | h <;> simp_all [startsValue]

/-- The first character of a number, for which it is read as one. -/
theorem head_render_ofNumber (number : Number) :
    ∃ c text, render (ofNumber number) = c :: text ∧ (c = '-' ∨ c.isDigit = true) := by
  obtain ⟨c, text, hc, htext⟩ := head_text number
  rw [render_ofNumber]
  rcases htext with htext | htext
  · exact ⟨c, text, htext, .inr hc⟩
  · exact ⟨'-', c :: text, htext, .inl rfl⟩

theorem startsValue_ofNumber (number : Number) :
    ∃ c text, render (ofNumber number) = c :: text ∧ startsValue c = true := by
  obtain ⟨c, text, htext, hc⟩ := head_render_ofNumber number
  exact ⟨c, text, htext, startsValue_of_head hc⟩

theorem head_render (v : JsonTree) : ∃ c text, render v = c :: text ∧ startsValue c = true := by
  cases v with
  | null => exact ⟨_, _, rfl, rfl⟩
  | bool b => cases b <;> exact ⟨_, _, rfl, rfl⟩
  | int i => exact startsValue_ofNumber (.int i)
  | float x =>
    cases x with
    | decimal d => exact startsValue_ofNumber (.decimal d)
    | nan => exact ⟨_, _, rfl, rfl⟩
    | infinity negative => cases negative <;> exact ⟨_, _, rfl, rfl⟩
  | str s => exact ⟨_, _, rfl, rfl⟩
  | arr items => cases items <;> exact ⟨_, _, by rw [render], rfl⟩
  | obj members => cases members <;> exact ⟨_, _, by rw [render], rfl⟩

theorem startsValue_ne {c : Char} (h : startsValue c = true) :
    isSpace c = false ∧ c ≠ ']' := by
  constructor
  · rw [Bool.eq_false_iff]
    intro hs
    simp only [isSpace, decide_eq_true_eq] at hs
    rcases hs with rfl | rfl | rfl | rfl <;> cases h
  · rintro rfl
    cases h

theorem skipSpaces_render (v : JsonTree) (rest : List Char) :
    skipSpaces (render v ++ rest) = render v ++ rest := by
  obtain ⟨c, text, htext, hc⟩ := head_render v
  simp [htext, skipSpaces, (startsValue_ne hc).1]

theorem head_render_ne_bracket (v : JsonTree) (rest : List Char) :
    (render v ++ rest).head? ≠ some ']' := by
  obtain ⟨c, text, htext, hc⟩ := head_render v
  simpa [htext] using (startsValue_ne hc).2

@[simp] theorem skipSpaces_space (text : List Char) : skipSpaces (' ' :: text) = skipSpaces text :=
  rfl

theorem readValue_space (fuel : ℕ) (text : List Char) :
    readValue fuel (' ' :: text) = readValue fuel text := by
  cases fuel with
  | zero => rfl
  | succ fuel => rw [readValue, readValue, skipSpaces_space]

theorem readMember_space (fuel : ℕ) (text : List Char) :
    readMember fuel (' ' :: text) = readMember fuel text := by
  cases fuel with
  | zero => rfl
  | succ fuel => rw [readMember, readMember, skipSpaces_space]

theorem readNumeral_text (number : Number) {rest : List Char} (hrest : Delimited rest) :
    readNumeral (number.text ++ rest) = some (ofNumber number, rest) := by
  have hinfinity : ¬ floatText (.infinity true) <+: number.text ++ rest := by
    obtain ⟨c, text, hc, htext⟩ := head_text number
    have hletter : c ≠ 'I' := by
      rintro rfl
      cases hc
    have hminus : c ≠ '-' := by
      rintro rfl
      cases hc
    rcases htext with htext | htext <;> simp [htext, floatText, signText, hletter.symm, hminus.symm]
  rw [readNumeral, if_neg hinfinity, readNumber_text number hrest.endsNumber]
  rfl

theorem readValue_ofNumber (number : Number) (fuel : ℕ) {rest : List Char}
    (hrest : Delimited rest) :
    readValue (fuel + 1) (render (ofNumber number) ++ rest) = some (ofNumber number, rest) := by
  obtain ⟨c, text, htext, hc⟩ := head_render_ofNumber number
  have hother : c ≠ '"' ∧ c ≠ '[' ∧ c ≠ '{' := by
    refine ⟨?_, ?_, ?_⟩ <;> rintro rfl <;> rcases hc with hc | hc <;> revert hc <;> decide
  have hread := readNumeral_text number hrest
  rw [← render_ofNumber, htext] at hread
  rw [readValue, skipSpaces_render, htext]
  simp only [List.cons_append, hother, if_false, if_pos hc]
  exact hread

/-- After the opening quote of a written string. -/
theorem readString_quote (s : String) {fuel : ℕ} (hfuel : (quote s).length ≤ fuel + 1)
    (rest : List Char) :
    readString fuel (s.toList.flatMap escapeChar ++ '"' :: rest) = some (s.toList, rest) := by
  have hlen := length_le_flatMap_escapeChar s.toList
  have hlt : s.toList.length < fuel := by
    simp only [quote, List.length_cons, List.length_append, List.length_nil] at hfuel
    omega
  exact readString_flatMap_escapeChar s.toList hlt rest

theorem delimited_renderItems (items : List JsonTree) (rest : List Char) :
    Delimited (renderItems items ++ rest) := by
  intro c hc
  cases items <;> simp only [renderItems, List.cons_append, List.head?_cons,
    Option.some.injEq] at hc <;> simp [← hc]

theorem delimited_renderMembers (members : List (String × JsonTree)) (rest : List Char) :
    Delimited (renderMembers members ++ rest) := by
  intro c hc
  cases members <;> simp only [renderMembers, List.cons_append, List.head?_cons,
    Option.some.injEq] at hc <;> simp [← hc]

/-- With this much fuel everything written that is no longer than it is read back. -/
structure ReadsBack (fuel : ℕ) : Prop where
  value : ∀ v rest, (render v).length ≤ fuel → Delimited rest →
    readValue fuel (render v ++ rest) = some (v, rest)
  items : ∀ items rest, (renderItems items).length ≤ fuel →
    readItems fuel (renderItems items ++ rest) = some (items, rest)
  member : ∀ k v rest, (quote k).length + (render v).length < fuel → Delimited rest →
    readMember fuel (quote k ++ ':' :: ' ' :: (render v ++ rest)) = some ((k, v), rest)
  members : ∀ members rest, (renderMembers members).length ≤ fuel →
    readMembers fuel (renderMembers members ++ rest) = some (members, rest)

theorem ReadsBack.value_succ {fuel : ℕ} (ih : ReadsBack fuel) (v : JsonTree) (rest : List Char)
    (hfuel : (render v).length ≤ fuel + 1) (hrest : Delimited rest) :
    readValue (fuel + 1) (render v ++ rest) = some (v, rest) := by
  cases v with
  | null =>
    rw [readValue, skipSpaces_render]
    simp [render, readKeyword]
  | bool b =>
    rw [readValue, skipSpaces_render]
    cases b <;> simp [render, readKeyword]
  | int i => exact readValue_ofNumber (.int i) fuel hrest
  | float x =>
    cases x with
    | decimal d => exact readValue_ofNumber (.decimal d) fuel hrest
    | nan =>
      rw [readValue, skipSpaces_render]
      simp [render, floatText, readKeyword]
    | infinity negative =>
      rw [readValue, skipSpaces_render]
      cases negative <;> simp [render, floatText, signText, readKeyword, readNumeral]
  | str s =>
    rw [readValue, skipSpaces_render]
    have hread := readString_quote s hfuel rest
    simp [render, quote, hread]
  | arr items =>
    rw [readValue, skipSpaces_render]
    cases items with
    | nil => simp [render, skipSpaces, isSpace]
    | cons item items =>
      simp only [render, List.length_cons, List.length_append] at hfuel
      have hitem := ih.value item (renderItems items ++ rest) (by omega)
        (delimited_renderItems items rest)
      have hitems := ih.items items rest (by omega)
      have hhead := head_render_ne_bracket item (renderItems items ++ rest)
      simp only [render, List.cons_append, List.append_assoc, skipSpaces_render, if_neg hhead]
      simp [hitem, hitems]
  | obj members =>
    rw [readValue, skipSpaces_render]
    cases members with
    | nil => simp [render, skipSpaces, isSpace]
    | cons member members =>
      obtain ⟨k, v⟩ := member
      simp only [render, List.length_cons, List.length_append] at hfuel
      have hmember := ih.member k v (renderMembers members ++ rest) (by omega)
        (delimited_renderMembers members rest)
      have hmembers := ih.members members rest (by omega)
      have hhead : (skipSpaces (quote k ++ ':' :: ' ' ::
          (render v ++ (renderMembers members ++ rest)))).head? ≠ some '}' := by
        simp [quote, skipSpaces, isSpace]
      simp [render, hhead, hmember, hmembers]

theorem ReadsBack.items_succ {fuel : ℕ} (ih : ReadsBack fuel) (items : List JsonTree)
    (rest : List Char) (hfuel : (renderItems items).length ≤ fuel + 1) :
    readItems (fuel + 1) (renderItems items ++ rest) = some (items, rest) := by
  cases items with
  | nil => simp [renderItems, readItems, skipSpaces, isSpace]
  | cons item items =>
    simp only [renderItems, List.length_cons, List.length_append] at hfuel
    have hitem := ih.value item (renderItems items ++ rest) (by omega)
      (delimited_renderItems items rest)
    have hitems := ih.items items rest (by omega)
    simp [renderItems, readItems, skipSpaces, isSpace, readValue_space, hitem, hitems]

theorem ReadsBack.member_succ {fuel : ℕ} (ih : ReadsBack fuel) (k : String) (v : JsonTree)
    (rest : List Char) (hfuel : (quote k).length + (render v).length < fuel + 1)
    (hrest : Delimited rest) :
    readMember (fuel + 1) (quote k ++ ':' :: ' ' :: (render v ++ rest)) = some ((k, v), rest) := by
  have hkey : readString fuel (k.toList.flatMap escapeChar ++ '"' :: ':' :: ' ' ::
      (render v ++ rest)) = some (k.toList, ':' :: ' ' :: (render v ++ rest)) :=
    readString_quote k (by omega) _
  have hvalue := ih.value v rest (by omega) hrest
  simp [readMember, quote, skipSpaces, isSpace, hkey, readValue_space, hvalue]

theorem ReadsBack.members_succ {fuel : ℕ} (ih : ReadsBack fuel)
    (members : List (String × JsonTree)) (rest : List Char)
    (hfuel : (renderMembers members).length ≤ fuel + 1) :
    readMembers (fuel + 1) (renderMembers members ++ rest) = some (members, rest) := by
  cases members with
  | nil => simp [renderMembers, readMembers, skipSpaces, isSpace]
  | cons member members =>
    obtain ⟨k, v⟩ := member
    simp only [renderMembers, List.length_cons, List.length_append] at hfuel
    have hmember := ih.member k v (renderMembers members ++ rest) (by omega)
      (delimited_renderMembers members rest)
    have hmembers := ih.members members rest (by omega)
    simp [renderMembers, readMembers, skipSpaces, isSpace, readMember_space, hmember, hmembers]

theorem readsBack (fuel : ℕ) : ReadsBack fuel := by
  induction fuel with
  | zero =>
    constructor
    · intro v rest hfuel _
      obtain ⟨c, text, htext, -⟩ := head_render v
      simp [htext] at hfuel
    · intro items rest hfuel
      cases items <;> simp [renderItems] at hfuel
    · intro k v rest hfuel _
      simp at hfuel
    · intro members rest hfuel
      cases members <;> simp [renderMembers] at hfuel
  | succ fuel ih => exact ⟨ih.value_succ, ih.items_succ, ih.member_succ, ih.members_succ⟩

/-- Reading a written document gives it back. -/
theorem read_render (v : JsonTree) : read (render v) = some v := by
  have hread : readValue ((render v).length + 1) (render v ++ []) = some (v, []) :=
    (readsBack _).value v [] (Nat.le_succ _) (by simp [Delimited])
  rw [List.append_nil] at hread
  rw [read, hread]
  rfl

end JsonTree
end Tdi.Foundation
