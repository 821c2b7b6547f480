import Mathlib.Algebra.Order.Ring.Int
import Mathlib.Tactic.Linarith
import Mathlib.Tactic.LinearCombination
import Mathlib.Tactic.Ring

/-!
# Multiplying and dividing a bit at a time

Two iterations of arithmetic units, on numbers of `w` bits: shift-add multiplication, whose state is
an accumulator and the rest of the multiplier above which the product's low half grows, and
restoring division, whose state is a remainder and the rest of the dividend below which the quotient
grows.
-/

set_option autoImplicit false

namespace ShiftArith

/-! ## Multiplication -/

/-- A step that adds `c` if the multiplier's next bit is set. -/
def mulStep (w : ℕ) (c : ℤ) (p : ℤ × ℕ) : ℤ × ℕ :=
  let s := p.1 + if p.2 % 2 = 1 then c else 0
  (s / 2, (s % 2).toNat * 2 ^ (w - 1) + p.2 / 2)

/-- After `k` steps with the multiplier `b` the partial product is `x`. -/
structure MulInv (w k : ℕ) (b : ℕ) (x : ℤ) (p : ℤ × ℕ) : Prop where
  value : p.1 * 2 ^ k + (p.2 / 2 ^ (w - k) : ℕ) = x
  rest : p.2 % 2 ^ (w - k) = b / 2 ^ k

theorem MulInv.init {w b : ℕ} (hb : b < 2 ^ w) : MulInv w 0 b 0 (0, b) where
  value := by simp [Nat.div_eq_of_lt hb]
  rest := by simp [Nat.mod_eq_of_lt hb]

/-- A step adds what the bit of the multiplier stands for. -/
theorem MulInv.step {w k b : ℕ} {x : ℤ} {p : ℤ × ℕ} (hk : k < w) (h : MulInv w k b x p) (c : ℤ) :
    MulInv w (k + 1) b (x + 2 ^ k * ((b / 2 ^ k % 2 : ℕ) * c)) (mulStep w c p) := by
  obtain ⟨j, rfl⟩ : ∃ j, w = k + 1 + j := Nat.exists_eq_add_of_le hk
  have hw : k + 1 + j - k = j + 1 := by omega
  have hw' : k + 1 + j - (k + 1) = j := by omega
  have hw1 : k + 1 + j - 1 = k + j := by omega
  have hvalue := h.value
  have hrest := h.rest
  rw [hw] at hvalue hrest
  have hbit : p.2 % 2 = b / 2 ^ k % 2 := by
    rw [← hrest, Nat.mod_mod_of_dvd _ (Dvd.intro_left _ (pow_succ 2 j).symm)]
  have hlow : ∀ t : ℕ, (t * 2 ^ (k + j) + p.2 / 2) / 2 ^ j = t * 2 ^ k + p.2 / 2 ^ (j + 1) := by
    intro t
    rw [pow_add, ← mul_assoc, Nat.add_comm, Nat.add_mul_div_right _ _ (Nat.two_pow_pos j),
      Nat.div_div_eq_div_mul, ← pow_succ', Nat.add_comm]
  constructor
  · dsimp only [mulStep]
    rw [hw', hw1, hlow]
    generalize hs : (p.1 + if p.2 % 2 = 1 then c else 0) = s
    have hs' : s = p.1 + (b / 2 ^ k % 2 : ℕ) * c := by
      rw [← hs, hbit]
      rcases Nat.mod_two_eq_zero_or_one (b / 2 ^ k) with h0 | h1
      · simp [h0]
      · simp [h1]
    have hmod : ((s % 2).toNat : ℤ) = s % 2 := Int.toNat_of_nonneg (Int.emod_nonneg _ (by decide))
    have hsplit := Int.mul_ediv_add_emod s 2
    rw [← hvalue, Nat.cast_add, Nat.cast_mul, hmod, Nat.cast_pow, Nat.cast_ofNat, pow_succ]
    linear_combination (2 : ℤ) ^ k * hsplit + (2 : ℤ) ^ k * hs'
  · dsimp only [mulStep]
    rw [hw', hw1, pow_add, ← mul_assoc, Nat.mul_add_mod_self_right]
    rw [pow_succ 2 k, ← Nat.div_div_eq_div_mul, ← hrest, pow_succ', Nat.mod_mul_right_div_self]

/-- After `w` steps the state holds the product. -/
theorem MulInv.final {w b : ℕ} {x : ℤ} {p : ℤ × ℕ} (h : MulInv w w b x p) :
    p.1 * 2 ^ w + p.2 = x := by
  simpa using h.value

/-! ## Division -/

/-- A step that shifts in the dividend's next bit and subtracts the divisor if it can. -/
def divStep (w d : ℕ) (p : ℕ × ℕ) : ℕ × ℕ :=
  let t := 2 * p.1 + p.2 / 2 ^ (w - 1)
  if t < d then (t, 2 * p.2 % 2 ^ w) else (t - d, 2 * p.2 % 2 ^ w + 1)

/-- After `k` steps of `a` over `d` the quotient's digits are `q`. -/
structure DivInv (w k a d q : ℕ) (p : ℕ × ℕ) : Prop where
  lo : p.2 = a % 2 ^ (w - k) * 2 ^ k + q
  digits : q < 2 ^ k
  value : a / 2 ^ (w - k) = q * d + p.1
  small : 0 < d → p.1 < d
  zero : d = 0 → q = 2 ^ k - 1

theorem DivInv.init {w a d : ℕ} (ha : a < 2 ^ w) : DivInv w 0 a d 0 (0, a) where
  lo := by simp [Nat.mod_eq_of_lt ha]
  digits := by decide
  value := by simp [Nat.div_eq_of_lt ha]
  small := id
  zero := fun _ ↦ rfl

theorem DivInv.step {w k a d q : ℕ} {p : ℕ × ℕ} (hk : k < w) (h : DivInv w k a d q p) :
    ∃ q', DivInv w (k + 1) a d q' (divStep w d p) := by
  obtain ⟨j, rfl⟩ : ∃ j, w = k + 1 + j := Nat.exists_eq_add_of_le hk
  have hw : k + 1 + j - k = j + 1 := by omega
  have hw' : k + 1 + j - (k + 1) = j := by omega
  have hw1 : k + 1 + j - 1 = j + k := by omega
  obtain ⟨hlo, hdigits, hvalue, hsmall, hzero⟩ := h
  rw [hw] at hlo hvalue
  -- the bit that is shifted out is the dividend's next one
  have hbit : p.2 / 2 ^ (j + k) = a / 2 ^ j % 2 := by
    have hpow : 2 ^ (j + k) = 2 ^ k * 2 ^ j := by rw [Nat.add_comm, pow_add]
    rw [hlo, hpow, ← Nat.div_div_eq_div_mul, Nat.add_comm, Nat.add_mul_div_right _ _
      (Nat.two_pow_pos k), Nat.div_eq_of_lt hdigits, Nat.zero_add, pow_succ,
      Nat.mod_mul_right_div_self]
  have hshift : 2 * p.2 % 2 ^ (k + 1 + j) = a % 2 ^ j * 2 ^ (k + 1) + 2 * q := by
    have hsplit : a % 2 ^ (j + 1) = a / 2 ^ j % 2 * 2 ^ j + a % 2 ^ j := by
      rw [Nat.mod_pow_succ]
      ring
    have hsum : 2 * p.2 = a % 2 ^ j * 2 ^ (k + 1) + 2 * q + 2 ^ (k + 1 + j) * (a / 2 ^ j % 2) := by
      rw [hlo, hsplit]
      ring
    have hlt : a % 2 ^ j * 2 ^ (k + 1) + 2 * q < 2 ^ (k + 1 + j) := by
      have hmul : (a % 2 ^ j + 1) * 2 ^ (k + 1) ≤ 2 ^ j * 2 ^ (k + 1) :=
        Nat.mul_le_mul_right _ (Nat.mod_lt _ (Nat.two_pow_pos j))
      rw [Nat.add_mul, Nat.one_mul] at hmul
      rw [pow_add 2 (k + 1) j, Nat.mul_comm (2 ^ (k + 1))]
      rw [pow_succ 2 k] at hmul ⊢
      omega
    rw [hsum, Nat.add_mul_mod_self_left, Nat.mod_eq_of_lt hlt]
  have hnext : a / 2 ^ j = 2 * (a / 2 ^ (j + 1)) + a / 2 ^ j % 2 := by
    rw [pow_succ, ← Nat.div_div_eq_div_mul]
    omega
  unfold divStep
  dsimp only
  rw [hw1, hbit]
  split
  next hlt =>
    refine ⟨2 * q, ?_, ?_, ?_, ?_, ?_⟩
    · rw [hw', hshift]
    · rw [pow_succ]
      omega
    · have hmul : 2 * q * d = 2 * (q * d) := by ring
      rw [hw', hmul]
      omega
    · intro _
      exact hlt
    · intro hd
      omega
  next hge =>
    refine ⟨2 * q + 1, ?_, ?_, ?_, ?_, ?_⟩
    · rw [hw', hshift]
      rfl
    · rw [pow_succ]
      omega
    · have hsub := Nat.add_sub_of_le (not_lt.mp hge)
      have hmul : (2 * q + 1) * d = 2 * (q * d) + d := by ring
      rw [hw', hmul]
      omega
    · intro hd
      have := hsmall hd
      dsimp only
      omega
    · intro hd
      have := hzero hd
      have := Nat.two_pow_pos k
      rw [pow_succ]
      omega

/-- After `w` steps the state holds quotient and remainder. -/
theorem DivInv.final {w a d q : ℕ} {p : ℕ × ℕ} (h : DivInv w w a d q p) :
    (0 < d → p = (a % d, a / d)) ∧ (d = 0 → p = (a, 2 ^ w - 1)) := by
  obtain ⟨hlo, -, hvalue, hsmall, hzero⟩ := h
  rw [Nat.sub_self, pow_zero, Nat.mod_one, Nat.zero_mul, Nat.zero_add] at hlo
  rw [Nat.sub_self, pow_zero, Nat.div_one] at hvalue
  refine ⟨fun hd ↦ ?_, fun hd ↦ ?_⟩
  · have hr := hsmall hd
    have hq : a / d = q := by
      rw [hvalue, Nat.add_comm, Nat.add_mul_div_right _ _ hd, Nat.div_eq_of_lt hr, Nat.zero_add]
    have hm : a % d = p.1 := by rw [hvalue, Nat.mul_add_mod_self_right, Nat.mod_eq_of_lt hr]
    exact Prod.ext hm.symm (hlo.trans hq.symm)
  · refine Prod.ext ?_ (hlo.trans (hzero hd))
    rw [hvalue, hd, Nat.mul_zero, Nat.zero_add]

end ShiftArith
