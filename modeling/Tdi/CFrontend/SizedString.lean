import Tdi.Cli.SetFields

/-!
# Strings with a size

The C function that sets a string field is given a buffer and a number of bytes. It
starts with a string of one zero byte, replaces it by the first byte of the buffer and
appends the other bytes in a loop over a signed 32-bit index. The command line gives it
the bytes that a text spells out, as hexadecimal digits or as ASCII.
-/
namespace Tdi.CFrontend

open Cli

/-- `TableData::setValue` for a string and its size, which a target overrides. -/
structure StringData (Data : Type) where
  setValue : Data → TdiId → List UInt8 → UInt64 → TdiStatus × Data

/-- `(int)s` -/
def sizeAsInt (s : UInt64) : ℤ := (s.toNat : ℤ).bmod (2 ^ 32)

/-- The loop `for (int i = 1; i < (int)s; i++)`; `none` is a read past the buffer. -/
def appendLoop (val : List UInt8) (size : ℤ) (i : ℕ) (strVal : List UInt8) :
    Option (List UInt8) :=
  if (i : ℤ) < size then
    match val[i]? with
    | none => none
    | some c => appendLoop val size (i + 1) (strVal ++ [c])
  else some strVal
termination_by (size - i).toNat

def sizedString (val : List UInt8) (s : UInt64) : Option (List UInt8) :=
  if 0 < s then
    match val[0]? with
    | none => none
    | some c => appendLoop val (sizeAsInt s) 1 [c]
  else some [0]

def tdiDataFieldSetStringWithSize {Data : Type} (api : StringData Data) (data : Data)
    (fieldId : TdiId) (val : List UInt8) (s : UInt64) : Option (TdiStatus × Data) :=
  (sizedString val s).map fun strVal => api.setValue data fieldId strVal s

section Loop

variable {val strVal r : List UInt8} {size : ℤ} {i : ℕ}

theorem appendLoop_eq (h : size ≤ val.length) :
    appendLoop val size i strVal = some (strVal ++ (val.take size.toNat).drop i) := by
  fun_induction appendLoop val size i strVal with
  | case1 i strVal hlt hnone =>
    have hle : val.length ≤ i := List.getElem?_eq_none_iff.mp hnone
    omega
  | case2 i strVal hlt c hsome ih =>
    have hi : i < val.length := (List.getElem?_eq_some_iff.mp hsome).1
    have hc : (val.take size.toNat)[i]? = some c := by
      rw [List.getElem?_take_of_lt (by omega), hsome]
    obtain ⟨hi', hget⟩ := List.getElem?_eq_some_iff.mp hc
    rw [ih, List.drop_eq_getElem_cons hi', hget, List.append_assoc, List.singleton_append]
  | case3 i strVal hlt =>
    have hdrop : (val.take size.toNat).drop i = [] := by
      rw [List.drop_eq_nil_iff, List.length_take]
      omega
    rw [hdrop, List.append_nil]

/-- Whatever the buffer, the loop appends one byte for each round. -/
theorem length_of_appendLoop (h : appendLoop val size i strVal = some r) :
    r.length = strVal.length + (size - i).toNat := by
  fun_induction appendLoop val size i strVal with
  | case1 => cases h
  | case2 i strVal hlt c hsome ih =>
    rw [ih h, List.length_append, List.length_singleton]
    omega
  | case3 i strVal hlt =>
    cases h
    omega

theorem sizeAsInt_lt (s : UInt64) : sizeAsInt s < 2 ^ 31 := by
  have h : sizeAsInt s < ((2 ^ 32 : ℕ) + 1) / 2 := Int.bmod_lt (by norm_num)
  omega

theorem sizeAsInt_of_lt {s : UInt64} (h : s.toNat < 2 ^ 31) : sizeAsInt s = s.toNat := by
  apply Int.bmod_eq_of_le <;> omega

end Loop

section Buffers

variable {val str : List UInt8} {s : UInt64}

theorem sizedString_zero (val : List UInt8) : sizedString val 0 = some [0] := rfl

/-- Between one byte and the largest `int` the string is the beginning of the buffer. -/
theorem sizedString_eq_take (hpos : 1 ≤ s.toNat) (hlt : s.toNat < 2 ^ 31)
    (hle : s.toNat ≤ val.length) : sizedString val s = some (val.take s.toNat) := by
  cases val with
  | nil => simp at hle; omega
  | cons c val =>
    have hs : 0 < s := UInt64.lt_iff_toNat_lt.mpr hpos
    have hsize : sizeAsInt s ≤ (c :: val).length := by
      rw [sizeAsInt_of_lt hlt]
      exact_mod_cast hle
    simp only [sizedString, if_pos hs, List.getElem?_cons_zero]
    rw [appendLoop_eq hsize, sizeAsInt_of_lt hlt, Int.toNat_natCast]
    obtain ⟨n, hn⟩ := Nat.exists_eq_add_of_le' hpos
    simp [hn]

/-- The string is never longer than the largest `int`. -/
theorem length_sizedString_lt (h : sizedString val s = some str) : str.length < 2 ^ 31 := by
  unfold sizedString at h
  split at h
  · split at h
    · cases h
    · have hlen := length_of_appendLoop h
      have hlt := sizeAsInt_lt s
      rw [hlen, List.length_singleton]
      omega
  · cases h
    decide

/-- The call hands the first `s` bytes of the buffer on. -/
def PassesBytes (val : List UInt8) (s : UInt64) : Prop :=
  ∀ (Data : Type) (api : StringData Data) (data : Data) (fieldId : TdiId),
    tdiDataFieldSetStringWithSize api data fieldId val s =
      some (api.setValue data fieldId (val.take s.toNat) s)

/-- A target that keeps the string it was given last shows which string that was. -/
def lastString : StringData (List UInt8) where
  setValue _ _ strVal _ := (.success, strVal)

theorem sizedString_of_lastString {size : UInt64}
    (h : tdiDataFieldSetStringWithSize lastString [] 0 val s =
      some (lastString.setValue [] 0 str size)) : sizedString val s = some str := by
  obtain ⟨strVal, hstr, heq⟩ := Option.map_eq_some_iff.mp h
  have hsame : strVal = str := congrArg Prod.snd heq
  rw [hstr, hsame]

theorem passesBytes_iff (hle : s.toNat ≤ val.length) :
    PassesBytes val s ↔ 1 ≤ s.toNat ∧ s.toNat < 2 ^ 31 := by
  constructor
  · intro h
    have hstr := sizedString_of_lastString (h _ lastString [] 0)
    have hlt := length_sizedString_lt hstr
    rw [List.length_take_of_le hle] at hlt
    refine ⟨Nat.one_le_iff_ne_zero.mpr fun hzero => ?_, hlt⟩
    obtain rfl : s = 0 := UInt64.toNat_inj.mp hzero
    rw [sizedString_zero] at hstr
    cases hstr
  · rintro ⟨hpos, hlt⟩ Data api data fieldId
    rw [tdiDataFieldSetStringWithSize, sizedString_eq_take hpos hlt hle]
    rfl

end Buffers

section CommandLine

/-- A Python integer as an argument of a function without declared argument types: `ctypes`
passes a C `int`, which is extended by its sign. -/
def ctypesInt (n : ℕ) : UInt64 := .ofInt ((n : ℤ).bmod (2 ^ 32))

/-- The call that `_set_data_field` makes for a string field. Python puts a zero byte behind
the bytes. -/
def setStringField {Data : Type} (api : StringData Data) (data : Data) (fieldId : TdiId)
    (bytestr : List UInt8) : Option (TdiStatus × Data) :=
  tdiDataFieldSetStringWithSize api data fieldId (bytestr ++ [0]) (ctypesInt bytestr.length)

def ReachesDriver (bytestr : List UInt8) : Prop :=
  ∀ (Data : Type) (api : StringData Data) (data : Data) (fieldId : TdiId),
    ∃ size, setStringField api data fieldId bytestr = some (api.setValue data fieldId bytestr size)

theorem ctypesInt_of_lt {n : ℕ} (h : n < 2 ^ 31) : (ctypesInt n).toNat = n := by
  have hbmod : (n : ℤ).bmod (2 ^ 32) = n := by apply Int.bmod_eq_of_le <;> omega
  have hmod : (n : ℤ) % 2 ^ 64 = n := by omega
  rw [ctypesInt, hbmod, UInt64.ofInt, hmod, Int.toNat_natCast]
  exact UInt64.toNat_ofNat_of_lt' (h.trans (by norm_num [UInt64.size]))

theorem reachesDriver_iff (bytestr : List UInt8) :
    ReachesDriver bytestr ↔ 1 ≤ bytestr.length ∧ bytestr.length < 2 ^ 31 := by
  constructor
  · intro h
    obtain ⟨size, hset⟩ := h _ lastString [] 0
    have hstr : sizedString (bytestr ++ [0]) (ctypesInt bytestr.length) = some bytestr :=
      sizedString_of_lastString hset
    refine ⟨?_, length_sizedString_lt hstr⟩
    cases bytestr with
    | nil => cases hstr
    | cons c bytestr => simp
  · rintro ⟨hpos, hlt⟩ Data api data fieldId
    have hsize := ctypesInt_of_lt hlt
    have hstr : sizedString (bytestr ++ [0]) (ctypesInt bytestr.length) = some bytestr := by
      rw [sizedString_eq_take, hsize, List.take_left]
      · rwa [hsize]
      · rwa [hsize]
      · rw [hsize, List.length_append]
        omega
    refine ⟨ctypesInt bytestr.length, ?_⟩
    rw [setStringField, tdiDataFieldSetStringWithSize, hstr, Option.map_some]

/-- The bytes of a buffer are handed on exactly for sizes from one to the largest `int`, and
those that a text spells out reach the driver exactly when there are that many. -/
theorem sizedString_exact_iff (val : List UInt8) (s : UInt64) (hle : s.toNat ≤ val.length)
    (text : String) :
    (PassesBytes val s ↔ 1 ≤ s.toNat ∧ s.toNat < 2 ^ 31) ∧
      ∀ bytestr, Content.stringBytes (.str text) = .ok bytestr →
        (ReachesDriver bytestr ↔ 1 ≤ bytestr.length ∧ bytestr.length < 2 ^ 31) := by
  constructor
  · exact passesBytes_iff hle
  · intro bytestr _
    exact reachesDriver_iff bytestr

theorem sizedString_exact_00ff :
    PassesBytes [0x61, 0, 0xff, 0x62] 3 ∧ ReachesDriver [0x00, 0xff] := by
  have hexact := sizedString_exact_iff [0x61, 0, 0xff, 0x62] 3 (by decide) "0x00ff"
  constructor
  · have hsize : (3 : UInt64).toNat < 2 ^ 31 := Nat.lt_trans (m := 4) (by decide) (by norm_num)
    exact hexact.1.mpr ⟨by decide, hsize⟩
  · exact (hexact.2 [0x00, 0xff] rfl).mpr ⟨by decide, by norm_num⟩

/-- No bytes are handed on as a zero byte, be they from a buffer or from the text `0x`. -/
theorem empty_string_not_passed :
    sizedString [] 0 = some [0] ∧ ¬PassesBytes [] 0 ∧
      Content.stringBytes (.str "0x") = .ok [] ∧ ¬ReachesDriver [] := by
  refine ⟨rfl, ?_, rfl, ?_⟩
  · rw [passesBytes_iff (by simp)]
    exact fun h => absurd h.1 (by simp)
  · rw [reachesDriver_iff]
    exact fun h => absurd h.1 (by simp)

end CommandLine
end Tdi.CFrontend
