import Tdi.Cli.Value
import Tdi.Utils.FieldBytes

/-!
# Integers as byte arrays

`fill_c_byte_arr` and `from_c_byte_arr` of the CLI, against the checks and the
conversions the driver's side makes of the same bytes.
-/
namespace Tdi.Cli

open Foundation BigEndian Utils

/-- `fill_c_byte_arr`: the array and its length. -/
def fillCByteArr (content : ℤ) (size : ℕ) : List UInt8 × ℕ :=
  let bytes := (size + 7) / 8
  -- `& 0xFF`
  ((List.range bytes).map fun i =>
    UInt8.ofNat ((content >>> (8 * (bytes - (i + 1)))) % 256).toNat, bytes)

/-- One round of the loop in `from_c_byte_arr`. -/
def addByte (value : List UInt8) (bytes : ℕ) (content : ℤ) (i : ℕ) : Except Raised ℤ :=
  match value[i]? with
  | none => .error .indexError
  | some b => .ok (content + (b.toNat <<< ((bytes - (i + 1)) * 8) : ℕ))

/-- `from_c_byte_arr` -/
def fromCByteArr (value : List UInt8) (size : ℕ) : Except Raised ℤ :=
  let bytes := (size + 7) / 8
  (List.range bytes).foldlM (addByte value bytes) 0

theorem fillCByteArr_natCast (v size : ℕ) :
    fillCByteArr v size = (encode ((size + 7) / 8) v, (size + 7) / 8) := by
  have hbyte : ∀ k : ℕ, ((v : ℤ) >>> (8 * k) % 256).toNat = v / 256 ^ k % 256 := by
    intro k
    rw [Int.shiftRight_eq_div_pow, pow_mul]
    norm_cast
  simp only [fillCByteArr, hbyte, encode_eq_map_range, Prod.mk.injEq, and_true]
  refine List.map_congr_left fun i _ => UInt8.toNat_inj.mp ?_
  simp

theorem foldlM_addByte {value : List UInt8} (bytes : ℕ) {positions : List ℕ}
    (h : ∀ i ∈ positions, i < value.length) (content : ℤ) :
    positions.foldlM (addByte value bytes) content = .ok (content +
      (positions.map fun i => (value.getD i 0).toNat * 256 ^ (bytes - (i + 1))).sum) := by
  induction positions generalizing content with
  | nil => simp [pure, Except.pure]
  | cons i positions ih =>
    have hi : i < value.length := h i (by simp)
    have hshift : (value[i]).toNat <<< ((bytes - (i + 1)) * 8) =
        (value.getD i 0).toNat * 256 ^ (bytes - (i + 1)) := by
      rw [Nat.shiftLeft_eq, mul_comm _ 8, pow_mul, List.getD_eq_getElem _ _ hi]
      norm_num
    have hstep : addByte value bytes content i =
        .ok (content + ((value.getD i 0).toNat * 256 ^ (bytes - (i + 1)) : ℕ)) := by
      rw [addByte, List.getElem?_eq_getElem hi, ← hshift]
    rw [List.foldlM_cons, hstep]
    simp only [bind, Except.bind]
    rw [ih fun j hj => h j (by simp [hj])]
    simp [add_assoc]

theorem fromCByteArr_eq {bytes : List UInt8} {size : ℕ} (h : bytes.length = (size + 7) / 8) :
    fromCByteArr bytes size = .ok (value bytes) := by
  have hmem : ∀ i ∈ List.range bytes.length, i < bytes.length := fun i hi => List.mem_range.mp hi
  simp only [fromCByteArr, ← h]
  rw [foldlM_addByte _ hmem, zero_add, ← value_eq_sum]

theorem two_pow_le_pow_sizeInBytes (w : ℕ) : 2 ^ w ≤ 256 ^ ((w + 7) / 8) := by
  calc 2 ^ w ≤ 2 ^ (8 * ((w + 7) / 8)) := Nat.pow_le_pow_right (by omega) (by omega)
    _ = 256 ^ ((w + 7) / 8) := by rw [pow_mul]; norm_num

section Agreement

variable {T : Type} [HasSize T] (field : T)

/-- A value in range is written as a string that the checks accept and both readers take
back, and the string is the one the driver's side writes. -/
theorem fillCByteArr_agrees {v : ℕ} (hv : v < 2 ^ HasSize.sizeGet field) :
    ∃ b, fillCByteArr v (HasSize.sizeGet field) = (b, b.length) ∧
      b.length = sizeInBytes field ∧
      fieldTypeCompatibilityCheck field (some b) b.length = .success ∧
      (∀ scalar, boundsCheck field scalar (some b) b.length = .success) ∧
      fromCByteArr b (HasSize.sizeGet field) = .ok v ∧
      (HasSize.sizeGet field ≤ 64 → ∀ host out buffer,
        toNetworkOrderData field host (UInt64.ofNat v) buffer = b ++ buffer.drop b.length ∧
        toHostOrderData field host b out = UInt64.ofNat v) := by
  have hlen := length_encode (sizeInBytes field) v
  have hvalue : value (encode (sizeInBytes field) v) = v :=
    value_encode (hv.trans_le (two_pow_le_pow_sizeInBytes _))
  refine ⟨encode (sizeInBytes field) v, ?_, hlen, ?_, ?_, ?_, ?_⟩
  · rw [hlen, fillCByteArr_natCast]
    rfl
  · rw [fieldTypeCompatibilityCheck_bytes_iff, hlen]
  · exact fun scalar => (boundsCheck_bytes_iff field scalar _).mpr ⟨hlen, hvalue.symm ▸ hv⟩
  · rw [fromCByteArr_eq hlen, hvalue]
  · intro hw host out buffer
    have hsize := sizeInBytes_le_eight field hw
    have hword : (UInt64.ofNat v).toNat = v := by
      have hpow : 2 ^ HasSize.sizeGet field ≤ 2 ^ 64 := Nat.pow_le_pow_right (by omega) hw
      rw [UInt64.toNat_ofNat', Nat.mod_eq_of_lt (hv.trans_le hpow)]
    rw [toNetworkOrderData, toNetworkOrder_eq host hsize, toHostOrderData,
      toHostOrder_eq host hsize hlen, hword, hvalue, hlen]
    exact ⟨rfl, rfl⟩

/-- An accepted string is the encoding of a value in range. -/
theorem fromCByteArr_agrees {b : List UInt8} {scalar : UInt64}
    (hb : boundsCheck field scalar (some b) b.length = .success) :
    ∃ v : ℕ, v < 2 ^ HasSize.sizeGet field ∧
      fromCByteArr b (HasSize.sizeGet field) = .ok v ∧
      fillCByteArr v (HasSize.sizeGet field) = (b, b.length) ∧
      (HasSize.sizeGet field ≤ 64 → ∀ host out buffer,
        toNetworkOrderData field host (toHostOrderData field host b out) buffer =
          b ++ buffer.drop b.length) := by
  obtain ⟨hlen, hlt⟩ := (boundsCheck_bytes_iff field scalar b).mp hb
  have hencode : encode (sizeInBytes field) (value b) = b := hlen ▸ encode_value b
  refine ⟨value b, hlt, fromCByteArr_eq hlen, ?_, ?_⟩
  · rw [fillCByteArr_natCast]
    exact Prod.ext hencode hlen.symm
  · intro hw host out buffer
    have hsize := sizeInBytes_le_eight field hw
    obtain ⟨b', hfill, -, -, -, -, hword⟩ := fillCByteArr_agrees field hlt
    have hb' : b' = b := by
      have hpair := hfill.symm.trans (fillCByteArr_natCast _ _)
      exact (congrArg Prod.fst hpair).trans hencode
    have hread : toHostOrderData field host b out = UInt64.ofNat (value b) :=
      toHostOrder_eq host hsize hlen out
    rw [hread, (hword hw host out buffer).1, hb']

/-- The CLI's encoder and decoder and the driver's checks and conversions agree on the
format of a field. -/
theorem field_format_agrees :
    (∀ v : ℤ, 0 ≤ v → v < 2 ^ HasSize.sizeGet field →
      ∃ b, fillCByteArr v (HasSize.sizeGet field) = (b, HasSize.sizeGet field ⌈/⌉ 8) ∧
        b.length = HasSize.sizeGet field ⌈/⌉ 8 ∧
        fieldTypeCompatibilityCheck field (some b) b.length = .success ∧
        (∀ scalar, boundsCheck field scalar (some b) b.length = .success) ∧
        fromCByteArr b (HasSize.sizeGet field) = .ok v ∧
        (HasSize.sizeGet field ≤ 64 → ∀ host out buffer,
          toNetworkOrderData field host (UInt64.ofNat v.toNat) buffer =
            b ++ buffer.drop b.length ∧
          toHostOrderData field host b out = UInt64.ofNat v.toNat)) ∧
    (∀ b scalar, b.length = HasSize.sizeGet field ⌈/⌉ 8 →
      boundsCheck field scalar (some b) b.length = .success →
      ∃ v : ℤ, 0 ≤ v ∧ v < 2 ^ HasSize.sizeGet field ∧
        fromCByteArr b (HasSize.sizeGet field) = .ok v ∧
        fillCByteArr v (HasSize.sizeGet field) = (b, b.length) ∧
        (HasSize.sizeGet field ≤ 64 → ∀ host out buffer,
          toNetworkOrderData field host (toHostOrderData field host b out) buffer =
            b ++ buffer.drop b.length)) := by
  constructor
  · intro v hv hlt
    obtain ⟨n, rfl⟩ := Int.eq_ofNat_of_zero_le hv
    obtain ⟨b, hfill, hlen, hrest⟩ := fillCByteArr_agrees field (v := n) (by exact_mod_cast hlt)
    rw [sizeInBytes_eq_ceilDiv] at hlen
    exact ⟨b, hlen ▸ hfill, hlen, hrest⟩
  · intro b scalar _ hb
    obtain ⟨v, hlt, hrest⟩ := fromCByteArr_agrees field hb
    exact ⟨v, Int.natCast_nonneg v, by exact_mod_cast hlt, hrest⟩

end Agreement

theorem field_format_agrees_port :
    ∃ b, fillCByteArr 0xABC 12 = (b, 2) ∧ fromCByteArr b 12 = .ok 0xABC := by
  obtain ⟨b, hfill, -, -, -, hread, -⟩ :=
    (field_format_agrees portField).1 0xABC (by decide) (by decide)
  exact ⟨b, hfill, hread⟩

end Tdi.Cli
