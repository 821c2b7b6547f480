import Mathlib.Data.Nat.Notation
import Mathlib.Tactic.Ring

/-!
# Numbers as bytes, lowest first

`LittleEndian.ofNat n v` are the `n` low bytes of `v` and `LittleEndian.toNat` is the number of some
bytes; each undoes the other as far as `n` bytes go.
-/

set_option autoImplicit false

namespace Vux9k.LittleEndian

/-- The number whose bytes these are. -/
def toNat : List (BitVec 8) → ℕ
  | [] => 0
  | b :: bs => b.toNat + 256 * toNat bs

/-- The `n` low bytes of a number. -/
def ofNat : ℕ → ℕ → List (BitVec 8)
  | 0, _ => []
  | n + 1, v => BitVec.ofNat 8 v :: ofNat n (v / 256)

@[simp]
theorem length_ofNat (n v : ℕ) : (ofNat n v).length = n := by
  induction n generalizing v with
  | zero => rfl
  | succ n ih => rw [ofNat, List.length_cons, ih]

theorem toNat_ofNat {n v : ℕ} (h : v < 256 ^ n) : toNat (ofNat n v) = v := by
  induction n generalizing v with
  | zero =>
    rw [ofNat, toNat]
    omega
  | succ n ih =>
    have hdiv : v / 256 < 256 ^ n := by
      rw [Nat.div_lt_iff_lt_mul (by omega), ← Nat.pow_succ]
      exact h
    rw [ofNat, toNat, ih hdiv, BitVec.toNat_ofNat]
    omega

theorem ofNat_toNat (bs : List (BitVec 8)) : ofNat bs.length (toNat bs) = bs := by
  induction bs with
  | nil => rfl
  | cons b bs ih =>
    have hb : b.toNat < 256 := b.isLt
    have hdiv : (b.toNat + 256 * toNat bs) / 256 = toNat bs := by omega
    have hmod : BitVec.ofNat 8 (b.toNat + 256 * toNat bs) = b := by
      apply BitVec.eq_of_toNat_eq
      rw [BitVec.toNat_ofNat]
      omega
    rw [List.length_cons, toNat, ofNat, hdiv, hmod, ih]

/-- A number at the start of some bytes. -/
theorem toNat_take_append {n v : ℕ} (h : v < 256 ^ n) (rest : List (BitVec 8)) :
    toNat ((ofNat n v ++ rest).take n) = v := by
  rw [List.take_left' (length_ofNat n v), toNat_ofNat h]

end Vux9k.LittleEndian
