import Mathlib.Tactic.IntervalCases
import Mathlib.Algebra.Order.Ring.Nat
import Vux9k.Firmware.Crc

/-!
# Numbers as text

`fw_common/src/fmt.rs` prints without dividing: `put_dec` takes each power of ten off by repeated
subtraction and leaves out leading zeros.  `decBytes_eq_toDigits` shows that what it prints is the
decimal numeral, which is what the host tool compares it with.
-/

set_option autoImplicit false

namespace Vux9k

/-- The bytes of an ASCII text. -/
def str (s : String) : List Byte := s.toList.map fun c ↦ BitVec.ofNat 8 c.toNat

/-! ## `put_hex` -/

/-- `HEX`. -/
def hexDigit (n : ℕ) : Byte := if n < 10 then BitVec.ofNat 8 (48 + n) else BitVec.ofNat 8 (55 + n)

/-- What `put_hex` prints: eight upper-case digits. -/
def hexBytes (val : Word) : List Byte :=
  [7, 6, 5, 4, 3, 2, 1, 0].map fun shift ↦ hexDigit ((val >>> (shift * 4)) &&& 0xF#32).toNat

/-! ## `put_dec` -/

/-- `while val >= p { val -= p; digit += 1 }`, which takes at most `fuel` rounds. -/
def takeOff (p : ℕ) : ℕ → ℕ → ℕ → ℕ × ℕ
  | 0, val, digit => (val, digit)
  | fuel + 1, val, digit =>
    if p ≤ val then takeOff p fuel (val - p) (digit + 1) else (val, digit)

/-- `POWERS`. -/
def powers : List ℕ :=
  [1000000000, 100000000, 10000000, 1000000, 100000, 10000, 1000, 100, 10, 1]

/-- The loop over the powers, with its `started` flag. -/
def decLoop : List ℕ → ℕ → Bool → List Byte
  | [], _, _ => []
  | p :: ps, val, started =>
    let (val, digit) := takeOff p val val 0
    if digit > 0 || started || p == 1 then
      BitVec.ofNat 8 (48 + digit) :: decLoop ps val true
    else decLoop ps val started

/-- What `put_dec` prints. -/
def decBytes (val : ℕ) : List Byte := decLoop powers val false

theorem takeOff_eq {p : ℕ} (hp : 0 < p) {fuel val digit : ℕ} (h : val ≤ fuel) :
    takeOff p fuel val digit = (val % p, digit + val / p) := by
  induction fuel generalizing val digit with
  | zero =>
    obtain rfl : val = 0 := by omega
    simp [takeOff]
  | succ fuel ih =>
    rw [takeOff]
    split
    next hle =>
      rw [ih (by omega), Nat.mod_eq_sub_mod hle, Nat.div_eq_sub_div hp hle]
      congr 1
      omega
    next hlt =>
      rw [Nat.mod_eq_of_lt (by omega), Nat.div_eq_of_lt (by omega), Nat.add_zero]

/-- The powers from `10 ^ (k - 1)` down to 1. -/
def powersBelow : ℕ → List ℕ
  | 0 => []
  | k + 1 => 10 ^ k :: powersBelow k

/-- Exactly `k` digits, leading zeros included. -/
def padded : ℕ → ℕ → List Char
  | 0, _ => []
  | k + 1, val => padded k (val / 10) ++ [(val % 10).digitChar]

/-- A character as a byte. -/
def charByte (c : Char) : Byte := BitVec.ofNat 8 c.toNat

theorem charByte_digitChar {d : ℕ} (h : d < 10) :
    charByte d.digitChar = BitVec.ofNat 8 (48 + d) := by
  interval_cases d <;> rfl

theorem ofNat_charByte {c : Char} (h : c.isDigit = true) : Char.ofNat (charByte c).toNat = c := by
  obtain ⟨-, h9⟩ := Char.isDigit_iff_toNat.mp h
  have h9' : c.toNat ≤ 57 := h9
  rw [charByte, BitVec.toNat_ofNat, Nat.mod_eq_of_lt (by omega), Char.ofNat_toNat]

/-- The first of `k + 1` digits. -/
theorem padded_succ {k val : ℕ} (h : val < 10 ^ (k + 1)) :
    padded (k + 1) val = (val / 10 ^ k).digitChar :: padded k (val % 10 ^ k) := by
  induction k generalizing val with
  | zero =>
    have : val < 10 := by simpa using h
    simp [padded, Nat.mod_eq_of_lt this]
  | succ k ih =>
    have hdiv : val / 10 < 10 ^ (k + 1) := by
      rw [Nat.div_lt_iff_lt_mul (by omega), ← Nat.pow_succ]
      exact h
    have h1 : val / 10 / 10 ^ k = val / 10 ^ (k + 1) := by
      rw [Nat.div_div_eq_div_mul, Nat.pow_succ, Nat.mul_comm]
    have h2 : val / 10 % 10 ^ k = val % 10 ^ (k + 1) / 10 := by
      rw [Nat.pow_succ, Nat.mul_comm (10 ^ k), Nat.mod_mul_right_div_self]
    have h3 : val % 10 ^ (k + 1) % 10 = val % 10 :=
      Nat.mod_mod_of_dvd _ (Dvd.intro_left (10 ^ k) rfl)
    rw [padded, ih hdiv, h1, h2, padded, h3]
    rfl

/-- Once a digit is out, every further one is. -/
theorem decLoop_started {k val : ℕ} (h : val < 10 ^ k) :
    decLoop (powersBelow k) val true = (padded k val).map charByte := by
  induction k generalizing val with
  | zero => rfl
  | succ k ih =>
    have hd : val / 10 ^ k < 10 := by
      rw [Nat.div_lt_iff_lt_mul (Nat.pow_pos (by omega)), Nat.mul_comm, ← Nat.pow_succ]
      exact h
    have hp : 0 < 10 ^ k := Nat.pow_pos (by omega)
    rw [powersBelow, decLoop, takeOff_eq hp le_rfl, padded_succ h, List.map_cons,
      charByte_digitChar hd, ← ih (Nat.mod_lt _ hp)]
    simp

theorem toDigits_eq_padded {k val : ℕ} (h : val < 10 ^ (k + 1)) (hk : 10 ^ k ≤ val) :
    Nat.toDigits 10 val = padded (k + 1) val := by
  induction k generalizing val with
  | zero =>
    have : val < 10 := by simpa using h
    rw [Nat.toDigits_of_lt_base this]
    simp [padded, Nat.mod_eq_of_lt this]
  | succ k ih =>
    have h10 : 10 ≤ val := by
      have : 1 ≤ 10 ^ k := Nat.one_le_pow _ _ (by omega)
      have := Nat.pow_succ 10 k
      omega
    rw [Nat.toDigits_of_base_le (by omega) h10, ih, padded]
    · rw [padded, Nat.pow_succ] at *
      rfl
    · rw [Nat.div_lt_iff_lt_mul (by omega), ← Nat.pow_succ]
      exact h
    · rw [Nat.le_div_iff_mul_le (by omega), ← Nat.pow_succ]
      exact hk

/-- Leading zeros are skipped, but not the last digit. -/
theorem decLoop_not_started {k val : ℕ} (h : val < 10 ^ (k + 1)) :
    decLoop (powersBelow (k + 1)) val false = (Nat.toDigits 10 val).map charByte := by
  induction k generalizing val with
  | zero =>
    have hd : val < 10 := by simpa using h
    rw [powersBelow, decLoop, takeOff_eq (by simp) le_rfl, Nat.toDigits_of_lt_base hd]
    simp [powersBelow, decLoop, charByte_digitChar hd]
  | succ k ih =>
    have hp : 0 < 10 ^ (k + 1) := Nat.pow_pos (by omega)
    rw [powersBelow, decLoop, takeOff_eq hp le_rfl]
    rcases Nat.lt_or_ge val (10 ^ (k + 1)) with hlt | hge
    · simp only [Nat.div_eq_of_lt hlt, Nat.mod_eq_of_lt hlt, Nat.add_zero]
      rw [if_neg (by simp), ih hlt]
    · have hd : 0 < val / 10 ^ (k + 1) := Nat.div_pos hge hp
      have hd' : val / 10 ^ (k + 1) < 10 := by
        rw [Nat.div_lt_iff_lt_mul hp, Nat.mul_comm, ← Nat.pow_succ]
        exact h
      simp only [Nat.zero_add]
      rw [if_pos (by simp [hd]), decLoop_started (Nat.mod_lt _ hp), toDigits_eq_padded h hge,
        padded_succ h, List.map_cons, charByte_digitChar hd']

/-- **`put_dec` prints the decimal numeral** of every `u32`. -/
theorem decBytes_eq_toDigits {val : ℕ} (h : val < 2 ^ 32) :
    decBytes val = (Nat.toDigits 10 val).map charByte :=
  decLoop_not_started (k := 9) (by omega)

end Vux9k
