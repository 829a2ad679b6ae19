import Mathlib

/-!
# Big-endian byte strings

A list of bytes read as the digits of a number to the base 256, the first byte
being the most significant one, and the encoding of a number in a given number
of bytes. The two are inverse to each other on strings of one length and numbers
that fit, and a number's bits beyond the first byte are counted from its length.
-/
namespace Tdi.Foundation.BigEndian

/-- The number a byte string stands for. -/
def value : List UInt8 → ℕ
  | [] => 0
  | b :: bs => b.toNat * 256 ^ bs.length + value bs

/-- The last `n` bytes of a number. -/
def encode : ℕ → ℕ → List UInt8
  | 0, _ => []
  | n + 1, v => UInt8.ofNat (v / 256 ^ n) :: encode n v

@[simp] theorem length_encode (n v : ℕ) : (encode n v).length = n := by
  induction n with
  | zero => rfl
  | succ n ih => simp [encode, ih]

theorem value_lt (bs : List UInt8) : value bs < 256 ^ bs.length := by
  induction bs with
  | nil => simp [value]
  | cons b bs ih =>
    have hb : b.toNat + 1 ≤ 256 := b.toNat_lt
    calc value (b :: bs) < b.toNat * 256 ^ bs.length + 256 ^ bs.length := by
          simpa [value] using ih
      _ = (b.toNat + 1) * 256 ^ bs.length := by ring
      _ ≤ 256 * 256 ^ bs.length := Nat.mul_le_mul_right _ hb
      _ = 256 ^ (b :: bs).length := by rw [List.length_cons, pow_succ']

theorem value_encode_mod (n v : ℕ) : value (encode n v) = v % 256 ^ n := by
  induction n with
  | zero => simp [encode, value, Nat.mod_one]
  | succ n ih =>
    have hb : (UInt8.ofNat (v / 256 ^ n)).toNat = v / 256 ^ n % 256 := by simp
    rw [encode, value, ih, length_encode, hb, pow_succ, Nat.mod_mul]
    ring

theorem value_encode {n v : ℕ} (h : v < 256 ^ n) : value (encode n v) = v := by
  rw [value_encode_mod, Nat.mod_eq_of_lt h]

theorem encode_add_mul (n v k : ℕ) : encode n (k * 256 ^ n + v) = encode n v := by
  induction n generalizing k with
  | zero => rfl
  | succ n ih =>
    have hsplit : k * 256 ^ (n + 1) + v = k * 256 * 256 ^ n + v := by ring
    have hdiv : (k * 256 * 256 ^ n + v) / 256 ^ n = k * 256 + v / 256 ^ n := by
      rw [add_comm, Nat.add_mul_div_right _ _ (by positivity), add_comm]
    have hbyte : UInt8.ofNat (k * 256 + v / 256 ^ n) = UInt8.ofNat (v / 256 ^ n) := by
      apply UInt8.toNat_inj.mp
      simp
    rw [encode, encode, hsplit, ih, hdiv, hbyte]

theorem encode_value (bs : List UInt8) : encode bs.length (value bs) = bs := by
  induction bs with
  | nil => rfl
  | cons b bs ih =>
    have hdiv : (b.toNat * 256 ^ bs.length + value bs) / 256 ^ bs.length = b.toNat := by
      rw [add_comm, Nat.add_mul_div_right _ _ (by positivity), Nat.div_eq_of_lt (value_lt bs),
        zero_add]
    rw [value, List.length_cons, encode, encode_add_mul, ih, hdiv, UInt8.ofNat_toNat]

theorem drop_encode {m n : ℕ} (h : m ≤ n) (v : ℕ) :
    (encode n v).drop (n - m) = encode m v := by
  induction n with
  | zero =>
    obtain rfl : m = 0 := by omega
    rfl
  | succ n ih =>
    rcases h.eq_or_lt with rfl | hlt
    · simp
    · have hsub : n + 1 - m = n - m + 1 := by omega
      rw [hsub, encode, List.drop_succ_cons]
      exact ih (by omega)

theorem value_append (as bs : List UInt8) :
    value (as ++ bs) = value as * 256 ^ bs.length + value bs := by
  induction as with
  | nil => simp [value]
  | cons a as ih =>
    rw [List.cons_append, value, value, ih, List.length_append]
    ring

theorem value_replicate_zero (n : ℕ) : value (List.replicate n 0) = 0 := by
  induction n with
  | zero => rfl
  | succ n ih => simp [List.replicate_succ, value, ih]

/-- A string whose first byte holds `k` bits has `k` bits and eight for each other byte. -/
theorem value_cons_lt_two_pow_iff (b : UInt8) (bs : List UInt8) (k : ℕ) :
    value (b :: bs) < 2 ^ (8 * bs.length + k) ↔ b.toNat < 2 ^ k := by
  have hbase : (2 : ℕ) ^ (8 * bs.length + k) = 2 ^ k * 256 ^ bs.length := by
    rw [pow_add, pow_mul, mul_comm]
    norm_num
  have hrest := value_lt bs
  rw [hbase, value]
  constructor
  · intro h
    by_contra hb
    have hle := Nat.mul_le_mul_right (256 ^ bs.length) (not_lt.mp hb)
    omega
  · intro h
    have hle : (b.toNat + 1) * 256 ^ bs.length ≤ 2 ^ k * 256 ^ bs.length :=
      Nat.mul_le_mul_right _ h
    rw [add_mul, one_mul] at hle
    omega

section Positions

theorem getElem_encode {n i : ℕ} (v : ℕ) (hi : i < (encode n v).length) :
    (encode n v)[i] = UInt8.ofNat (v / 256 ^ (n - (i + 1))) := by
  induction n generalizing i with
  | zero => simp at hi
  | succ n ih =>
    cases i with
    | zero => rfl
    | succ i =>
      have hsub : n + 1 - (i + 1 + 1) = n - (i + 1) := by omega
      simp only [encode, List.getElem_cons_succ, hsub]
      exact ih (by simpa using hi)

/-- The encoding byte by byte, as a loop over positions writes it. -/
theorem encode_eq_map_range (n v : ℕ) :
    encode n v = (List.range n).map fun i => UInt8.ofNat (v / 256 ^ (n - (i + 1))) :=
  List.ext_getElem (by simp) fun i hi _ => by simp [getElem_encode]

/-- The value as a loop over positions adds it up. -/
theorem value_eq_sum (bs : List UInt8) :
    value bs = ((List.range bs.length).map fun i =>
      (bs.getD i 0).toNat * 256 ^ (bs.length - (i + 1))).sum := by
  induction bs with
  | nil => rfl
  | cons b bs ih =>
    rw [value, ih, List.length_cons, List.range_succ_eq_map]
    simp [Function.comp_def]

end Positions

end Tdi.Foundation.BigEndian
