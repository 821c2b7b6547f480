import Mathlib.Data.BitVec

/-!
# Addresses in fields

An address of a direct-mapped cache is a tag, a line and a word of the line, one after the other.
-/

set_option autoImplicit false

namespace Vux9k

variable {m n k : ℕ}

theorem extract_low (x : BitVec m) (y : BitVec n) : (x ++ y).extractLsb' 0 n = y := by
  refine BitVec.eq_of_getLsbD_eq fun i hi ↦ ?_
  simp [hi, BitVec.getLsbD_append]

theorem extract_high (x : BitVec m) (y : BitVec n) : (x ++ y).extractLsb' n m = x := by
  refine BitVec.eq_of_getLsbD_eq fun i hi ↦ ?_
  simp [hi, BitVec.getLsbD_append]

theorem extract_middle (x : BitVec m) (y : BitVec n) (z : BitVec k) :
    (x ++ y ++ z).extractLsb' k n = y := by
  refine BitVec.eq_of_getLsbD_eq fun i hi ↦ ?_
  simp [hi, BitVec.getLsbD_append]

theorem extract_top (x : BitVec m) (y : BitVec n) (z : BitVec k) :
    (x ++ y ++ z).extractLsb' (n + k) m = x := by
  refine BitVec.eq_of_getLsbD_eq fun i hi ↦ ?_
  have h1 : ¬ n + k + i < k := by omega
  have h2 : ¬ n + k + i - k < n := by omega
  have h3 : n + k + i - k - n = i := by omega
  simp [hi, BitVec.getLsbD_append, h1, h2, h3]

/-- An address is its fields. -/
theorem eq_fields (x : BitVec (m + n + k)) :
    x = x.extractLsb' (n + k) m ++ x.extractLsb' k n ++ x.extractLsb' 0 k := by
  refine BitVec.eq_of_getLsbD_eq fun i hi ↦ ?_
  simp only [BitVec.getLsbD_append, BitVec.getLsbD_extractLsb']
  by_cases h1 : i < k
  · simp [h1]
  · by_cases h2 : i - k < n
    · simp [h1, h2, show k + (i - k) = i by omega]
    · simp [h1, h2, show i - k - n < m by omega, show n + k + (i - k - n) = i by omega]

/-- The low bits are the two lower fields. -/
theorem extract_fields (x : BitVec (m + n + k)) :
    x.extractLsb' 0 (n + k) = x.extractLsb' k n ++ x.extractLsb' 0 k := by
  refine BitVec.eq_of_getLsbD_eq fun i hi ↦ ?_
  simp only [BitVec.getLsbD_append, BitVec.getLsbD_extractLsb']
  by_cases h1 : i < k
  · simp [h1, hi]
  · simp [h1, hi, show i - k < n by omega, show k + (i - k) = i by omega]

/-- Counting up in the lowest field. -/
theorem append_add_ofNat (x : BitVec m) {j : ℕ} (hj : j < 2 ^ k) :
    x ++ 0#k + BitVec.ofNat (m + k) j = x ++ BitVec.ofNat k j := by
  refine BitVec.eq_of_toNat_eq ?_
  have hlt : x.toNat * 2 ^ k + j < 2 ^ (m + k) := by
    have hx := x.isLt
    calc x.toNat * 2 ^ k + j < (x.toNat + 1) * 2 ^ k := by rw [add_mul, one_mul]; omega
      _ ≤ 2 ^ m * 2 ^ k := Nat.mul_le_mul_right _ hx
      _ = 2 ^ (m + k) := (pow_add 2 m k).symm
  have hj' : j < 2 ^ (m + k) := lt_of_le_of_lt (Nat.le_add_left _ _) hlt
  rw [BitVec.toNat_add, BitVec.toNat_append, BitVec.toNat_append, BitVec.toNat_ofNat,
    BitVec.toNat_ofNat, BitVec.toNat_ofNat, Nat.zero_mod, Nat.or_zero, Nat.mod_eq_of_lt hj,
    Nat.mod_eq_of_lt hj', Nat.shiftLeft_eq, Nat.mod_eq_of_lt hlt, ← Nat.shiftLeft_eq,
    ← Nat.shiftLeft_add_eq_or_of_lt hj]

end Vux9k
