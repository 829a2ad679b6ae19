import Tdi.Foundation.BigEndian
import Tdi.Json.TableInfo

/-!
# Field values as bytes

`TdiEndiannessHandler` moves a value between a 64-bit word of the host and a byte
string in network order, and `TableFieldUtils` checks a value, as a word or as a
byte string, against the width of its field. The width comes from a 32-bit number
of the schema, so rounding it up to bytes does not wrap around.
-/
namespace Tdi.Utils

open Foundation BigEndian Json

/-- The order in which the host keeps the bytes of a word. -/
inductive ByteOrder where
  | little
  | big
  deriving DecidableEq

namespace ByteOrder

variable (host : ByteOrder)

/-- The memory of a `uint64_t`. -/
def store (word : UInt64) : List UInt8 :=
  match host with
  | .little => (encode 8 word.toNat).reverse
  | .big => encode 8 word.toNat

def load (bytes : List UInt8) : UInt64 :=
  match host with
  | .little => UInt64.ofNat (value bytes.reverse)
  | .big => UInt64.ofNat (value bytes)

def swap64 (word : UInt64) : UInt64 := UInt64.ofNat (value (encode 8 word.toNat).reverse)

def be64toh (word : UInt64) : UInt64 :=
  match host with
  | .little => swap64 word
  | .big => word

def htobe64 (word : UInt64) : UInt64 :=
  match host with
  | .little => swap64 word
  | .big => word

theorem toNat_ofNat_value {bytes : List UInt8} (h : bytes.length = 8) :
    (UInt64.ofNat (value bytes)).toNat = value bytes := by
  have hlt : value bytes < 256 ^ 8 := h ▸ value_lt bytes
  rw [UInt64.toNat_ofNat', Nat.mod_eq_of_lt]
  omega

theorem encode_toNat_swap64 (word : UInt64) :
    encode 8 (swap64 word).toNat = (encode 8 word.toNat).reverse := by
  have hlen : (encode 8 word.toNat).reverse.length = 8 := by simp
  rw [swap64, toNat_ofNat_value hlen]
  exact hlen ▸ encode_value _

/-- What stands in memory in network order is read as its value. -/
theorem be64toh_load {bytes : List UInt8} (h : bytes.length = 8) :
    host.be64toh (host.load bytes) = UInt64.ofNat (value bytes) := by
  cases host with
  | big => rfl
  | little =>
    have hrev : bytes.reverse.length = 8 := by simpa using h
    have henc : encode 8 (value bytes.reverse) = bytes.reverse := hrev ▸ encode_value _
    simp only [be64toh, load, swap64]
    rw [toNat_ofNat_value hrev, henc, List.reverse_reverse]

theorem store_htobe64 (word : UInt64) : host.store (host.htobe64 word) = encode 8 word.toNat := by
  cases host with
  | big => rfl
  | little => simp [store, htobe64, encode_toNat_swap64]

end ByteOrder

/-- `std::memcpy` of `size` bytes to an offset of the destination. -/
def memcpy (dst : List UInt8) (offset : ℕ) (src : List UInt8) (size : ℕ) : List UInt8 :=
  dst.take offset ++ src.take size ++ dst.drop (offset + size)

/-- A stream of more than eight bytes leaves the output argument alone. -/
def toHostOrder (host : ByteOrder) (size : ℕ) (valuePtr : List UInt8) (outData : UInt64) : UInt64 :=
  if size > 8 then outData
  else
    let localValue := memcpy (List.replicate 8 0) (8 - size) valuePtr size
    host.be64toh (host.load localValue)

def toNetworkOrder (host : ByteOrder) (size : ℕ) (inData : UInt64) (valuePtr : List UInt8) :
    List UInt8 :=
  if size > 8 then valuePtr
  else memcpy valuePtr 0 ((host.store (host.htobe64 inData)).drop (8 - size)) size

theorem toHostOrder_eq (host : ByteOrder) {size : ℕ} (hsize : size ≤ 8) {bytes : List UInt8}
    (hlen : bytes.length = size) (outData : UInt64) :
    toHostOrder host size bytes outData = UInt64.ofNat (value bytes) := by
  have hmem : memcpy (List.replicate 8 0) (8 - size) bytes size =
      List.replicate (8 - size) 0 ++ bytes := by
    have hmin : min (8 - size) 8 = 8 - size := by omega
    have hend : 8 - (8 - size + size) = 0 := by omega
    rw [memcpy, List.take_replicate, List.drop_replicate, hmin, hend,
      List.take_of_length_le hlen.le, List.replicate_zero, List.append_nil]
  have height : (List.replicate (8 - size) 0 ++ bytes).length = 8 := by
    simp only [List.length_append, List.length_replicate]
    omega
  rw [toHostOrder, if_neg (by omega), hmem]
  simp only [host.be64toh_load height, value_append, value_replicate_zero, zero_mul, zero_add]

theorem toNetworkOrder_eq (host : ByteOrder) {size : ℕ} (hsize : size ≤ 8) (inData : UInt64)
    (valuePtr : List UInt8) :
    toNetworkOrder host size inData valuePtr =
      encode size inData.toNat ++ valuePtr.drop size := by
  have htake : (encode size inData.toNat).take size = encode size inData.toNat :=
    List.take_of_length_le (length_encode _ _).le
  rw [toNetworkOrder, if_neg (by omega), host.store_htobe64, drop_encode hsize, memcpy, htake]
  simp

/-- What the checks below read of a key field or a data field. -/
class HasSize (T : Type) where
  /-- the width in bits -/
  sizeGet : T → ℕ

instance : HasSize KeyFieldInfo := ⟨KeyFieldInfo.sizeBits⟩

instance : HasSize DataFieldInfo := ⟨DataFieldInfo.sizeBits⟩

section Checks

variable {T : Type} [HasSize T] (field : T)

def sizeInBytes : ℕ := (HasSize.sizeGet field + 7) / 8

/-- A null `value_ptr` is `none`; then the value is the scalar. -/
def boundsCheck (scalar : UInt64) (valuePtr : Option (List UInt8)) (s : ℕ) : TdiStatus :=
  let fieldSize := HasSize.sizeGet field
  match valuePtr with
  | none =>
    if fieldSize < 64 then
      let limit := (1 : UInt64) <<< UInt64.ofNat fieldSize - 1
      if scalar > limit then .invalidArg else .success
    else .success
  | some bytes =>
    if s ≠ sizeInBytes field then .invalidArg
    else
      let shift := fieldSize % 8
      if shift ≠ 0 ∧ (bytes.headD 0).toNat >>> shift > 0 then .invalidArg else .success

def fieldTypeCompatibilityCheck (valuePtr : Option (List UInt8)) (size : ℕ) : TdiStatus :=
  match valuePtr with
  | none => if HasSize.sizeGet field > 64 then .invalidArg else .success
  | some _ => if size ≠ sizeInBytes field then .invalidArg else .success

def toHostOrderData (host : ByteOrder) (valuePtr : List UInt8) (outData : UInt64) : UInt64 :=
  toHostOrder host (sizeInBytes field) valuePtr outData

def toNetworkOrderData (host : ByteOrder) (inData : UInt64) (valuePtr : List UInt8) : List UInt8 :=
  toNetworkOrder host (sizeInBytes field) inData valuePtr

theorem fieldTypeCompatibilityCheck_bytes_iff (bytes : List UInt8) (size : ℕ) :
    fieldTypeCompatibilityCheck field (some bytes) size = .success ↔
      size = sizeInBytes field := by
  simp [fieldTypeCompatibilityCheck]

theorem limit_toNat {w : ℕ} (hw : w < 64) :
    ((1 : UInt64) <<< UInt64.ofNat w - 1).toNat = 2 ^ w - 1 := by
  have hpow : 2 ^ w < 2 ^ 64 := Nat.pow_lt_pow_right (by omega) hw
  have hshift : ((1 : UInt64) <<< UInt64.ofNat w).toNat = 2 ^ w := by
    have hmod : w % 2 ^ 64 % 64 = w := by omega
    rw [UInt64.toNat_shiftLeft, UInt64.toNat_ofNat', hmod, Nat.shiftLeft_eq]
    simpa using hpow
  have hle : (1 : UInt64) ≤ (1 : UInt64) <<< UInt64.ofNat w := by
    rw [UInt64.le_iff_toNat_le, hshift]
    exact Nat.one_le_two_pow
  rw [UInt64.toNat_sub_of_le _ _ hle, hshift]
  rfl

theorem boundsCheck_scalar_iff (scalar : UInt64) (s : ℕ) :
    boundsCheck field scalar none s = .success ↔
      64 ≤ HasSize.sizeGet field ∨ scalar.toNat < 2 ^ HasSize.sizeGet field := by
  by_cases hw : HasSize.sizeGet field < 64
  · have hpos : 0 < 2 ^ HasSize.sizeGet field := by positivity
    have hlimit := limit_toNat hw
    simp only [boundsCheck, if_pos hw, gt_iff_lt, UInt64.lt_iff_toNat_lt, hlimit]
    split_ifs <;> simp <;> omega
  · simp only [boundsCheck, if_neg hw, true_iff]
    exact .inl (not_lt.mp hw)

/-- On a string of the field's length the test of the first byte bounds the value. -/
theorem first_byte_iff {w : ℕ} {bytes : List UInt8} (hlen : bytes.length = (w + 7) / 8) :
    ¬ (w % 8 ≠ 0 ∧ (bytes.headD 0).toNat >>> (w % 8) > 0) ↔ value bytes < 2 ^ w := by
  by_cases hshift : w % 8 = 0
  · have hw : w = 8 * bytes.length := by omega
    have hlt := value_lt bytes
    have hpow : (2 : ℕ) ^ w = 256 ^ bytes.length := by
      rw [hw, pow_mul]
      norm_num
    simpa [hshift, hpow] using hlt
  · cases bytes with
    | nil => simp at hlen; omega
    | cons b bs =>
      have hw : w = 8 * bs.length + w % 8 := by
        rw [List.length_cons] at hlen
        omega
      have hzero : b.toNat >>> (w % 8) = 0 ↔ b.toNat < 2 ^ (w % 8) := by
        rw [Nat.shiftRight_eq_div_pow, Nat.div_eq_zero_iff_lt (by positivity)]
      have hvalue := value_cons_lt_two_pow_iff b bs (w % 8)
      rw [← hw] at hvalue
      rw [hvalue, ← hzero]
      simp [hshift]

theorem boundsCheck_bytes_iff (scalar : UInt64) (bytes : List UInt8) :
    boundsCheck field scalar (some bytes) bytes.length = .success ↔
      bytes.length = sizeInBytes field ∧ value bytes < 2 ^ HasSize.sizeGet field := by
  by_cases hlen : bytes.length = sizeInBytes field
  · simp only [boundsCheck, hlen, ne_eq, not_true_eq_false, if_false, true_and,
      ← first_byte_iff hlen]
    split_ifs with h
    · exact iff_of_false nofun (not_not_intro h)
    · exact iff_of_true rfl h
  · simp [boundsCheck, hlen]

theorem sizeInBytes_eq_ceilDiv : sizeInBytes field = HasSize.sizeGet field ⌈/⌉ 8 := by
  rw [Nat.ceilDiv_eq_add_pred_div, sizeInBytes]
  omega

theorem sizeInBytes_le_eight (h : HasSize.sizeGet field ≤ 64) : sizeInBytes field ≤ 8 := by
  unfold sizeInBytes
  omega

/-- The string form accepts the strings of the field's length whose value fits, the
scalar form the words that fit, and the two agree on a word and its encoding. -/
theorem boundsCheck_exact :
    (∀ scalar bytes, boundsCheck field scalar (some bytes) bytes.length = .success ↔
      bytes.length = HasSize.sizeGet field ⌈/⌉ 8 ∧ value bytes < 2 ^ HasSize.sizeGet field) ∧
    (∀ scalar s, boundsCheck field scalar none s = .success ↔
      64 ≤ HasSize.sizeGet field ∨ scalar.toNat < 2 ^ HasSize.sizeGet field) ∧
    (HasSize.sizeGet field ≤ 64 → ∀ (host : ByteOrder) (v scalar : UInt64) (s : ℕ)
      (buffer : List UInt8), buffer.length = HasSize.sizeGet field ⌈/⌉ 8 →
      v.toNat < 2 ^ (8 * (HasSize.sizeGet field ⌈/⌉ 8)) →
      (boundsCheck field v none s = .success ↔
        boundsCheck field scalar
          (some (toNetworkOrder host (HasSize.sizeGet field ⌈/⌉ 8) v buffer))
          (HasSize.sizeGet field ⌈/⌉ 8) = .success)) := by
  simp only [← sizeInBytes_eq_ceilDiv]
  refine ⟨boundsCheck_bytes_iff field, boundsCheck_scalar_iff field, ?_⟩
  intro hw host v scalar s buffer hbuffer hv
  have hfits : v.toNat < 256 ^ sizeInBytes field := by
    rw [pow_mul] at hv
    norm_num at hv
    exact hv
  have hbytes : toNetworkOrder host (sizeInBytes field) v buffer =
      encode (sizeInBytes field) v.toNat := by
    rw [toNetworkOrder_eq host (sizeInBytes_le_eight field hw), ← hbuffer, List.drop_length,
      List.append_nil]
  have hiff := boundsCheck_bytes_iff field scalar (encode (sizeInBytes field) v.toNat)
  rw [length_encode, value_encode hfits] at hiff
  rw [hbytes, hiff, boundsCheck_scalar_iff]
  constructor
  · rintro (h64 | hlt)
    · have hsize : HasSize.sizeGet field = 64 := by omega
      exact ⟨rfl, hsize ▸ v.toNat_lt⟩
    · exact ⟨rfl, hlt⟩
  · exact fun h => .inr h.2

end Checks

/-- A data field of twelve bits. -/
def portField : DataFieldInfo where
  fieldId := 1
  name := "port"
  sizeBits := 12
  dataType := .byteStream
  mandatory := true
  readOnly := false
  enumChoices := []
  annotations := .empty
  defaultValue := 0
  defaultFlValue := none
  defaultStrValue := ""
  repeated := false
  containerValid := false
  oneofSiblings := ∅

theorem boundsCheck_exact_port :
    boundsCheck portField 0xABC none 0 = .success ↔
      boundsCheck portField 0 (some (toNetworkOrder .little (12 ⌈/⌉ 8) 0xABC [0, 0]))
        (12 ⌈/⌉ 8) = .success :=
  (boundsCheck_exact portField).2.2 (by decide) .little 0xABC 0 0 [0, 0] (by decide) (by decide)

end Tdi.Utils
