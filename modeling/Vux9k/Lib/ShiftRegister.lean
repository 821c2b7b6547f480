import Mathlib

/-!
# Division by a shift register

A register of `w` bits holds the remainder of a polynomial over the field of two elements, with the
coefficient of the highest power in bit 0.  Shifting it out one bit and adding the feedback word `p`
if that bit is set multiplies the remainder by `X`, modulo the generator `X ^ w + poly p`.  A
register that takes its input `n` bits at a time is at the end the remainder of the whole input.
-/

set_option autoImplicit false

open Polynomial

namespace ShiftRegister

variable {w n : ℕ}

/-- A bit as a coefficient. -/
noncomputable def coeffOf (b : Bool) : (ZMod 2)[X] := if b then 1 else 0

/-- The polynomial of some bits, the highest power first. -/
noncomputable def poly (x : BitVec w) : (ZMod 2)[X] :=
  ∑ i ∈ Finset.range w, coeffOf (x.getLsbD i) * X ^ (w - 1 - i)

/-- What the register with the feedback `p` divides by. -/
noncomputable def generator (p : BitVec w) : (ZMod 2)[X] := X ^ w + poly p

/-- One bit. -/
def step (p x : BitVec w) : BitVec w := if x.getLsbD 0 then (x >>> 1) ^^^ p else x >>> 1

/-- `k` bits. -/
def steps (p : BitVec w) : ℕ → BitVec w → BitVec w
  | 0, x => x
  | k + 1, x => steps p k (step p x)

/-- `n` bits of input. -/
def absorb (p : BitVec w) (x : BitVec w) (b : BitVec n) : BitVec w :=
  steps p n (x ^^^ b.setWidth w)

/-- The polynomial of an input, the first bit the highest power. -/
noncomputable def message (l : List (BitVec n)) : (ZMod 2)[X] :=
  l.foldl (fun m b ↦ X ^ n * m + poly b) 0

/-- The register that holds a polynomial. -/
noncomputable def register (w : ℕ) (f : (ZMod 2)[X]) : BitVec w :=
  (BitVec.ofBoolListLE ((List.range w).map fun i ↦ decide (f.coeff (w - 1 - i) = 1))).setWidth w

/-! ## Polynomials of bits -/

theorem add_self (a : (ZMod 2)[X]) : a + a = 0 := CharTwo.add_self_eq_zero a

theorem coeffOf_xor (a b : Bool) : coeffOf (a ^^ b) = coeffOf a + coeffOf b := by
  cases a <;> cases b <;> simp [coeffOf, add_self]

theorem poly_xor (x y : BitVec w) : poly (x ^^^ y) = poly x + poly y := by
  simp only [poly, BitVec.getLsbD_xor, coeffOf_xor, add_mul, Finset.sum_add_distrib]

theorem degree_poly_lt (x : BitVec w) : (poly x).degree < w := by
  rw [← mem_degreeLT]
  refine Submodule.sum_mem _ fun i hi ↦ ?_
  rw [Finset.mem_range] at hi
  rw [mem_degreeLT]
  by_cases hb : x.getLsbD i = true
  · rw [hb, coeffOf, if_pos rfl, one_mul]
    exact lt_of_le_of_lt (degree_X_pow_le _) (by exact_mod_cast (by omega : w - 1 - i < w))
  · rw [Bool.not_eq_true] at hb
    rw [hb, coeffOf, if_neg (by simp), zero_mul, degree_zero]
    exact WithBot.bot_lt_coe w

theorem coeff_poly (x : BitVec w) {i : ℕ} (hi : i < w) :
    (poly x).coeff (w - 1 - i) = if x.getLsbD i then 1 else 0 := by
  rw [poly, finsetSum_coeff, Finset.sum_eq_single_of_mem i (Finset.mem_range.mpr hi)]
  · cases x.getLsbD i <;> simp [coeffOf]
  · intro j hj hne
    rw [Finset.mem_range] at hj
    have hdeg : w - 1 - i ≠ w - 1 - j := by omega
    cases x.getLsbD j <;> simp [coeffOf, coeff_X_pow, hdeg]

theorem register_poly (x : BitVec w) : register w (poly x) = x := by
  apply BitVec.eq_of_getLsbD_eq
  intro i hi
  have hbit : decide ((poly x).coeff (w - 1 - i) = 1) = x.getLsbD i := by
    rw [coeff_poly x hi]
    cases x.getLsbD i <;> simp
  rw [register, BitVec.getLsbD_setWidth, BitVec.getLsbD_ofBoolListLE]
  simp [hi, hbit]

theorem monic_generator (p : BitVec w) : (generator p).Monic := monic_X_pow_add (degree_poly_lt p)

theorem degree_generator (p : BitVec w) : (generator p).degree = w := by
  rw [generator, add_comm]
  have hlt : (poly p).degree < ((X : (ZMod 2)[X]) ^ w).degree := by
    rw [degree_X_pow]
    exact degree_poly_lt p
  rw [degree_add_eq_right_of_degree_lt hlt, degree_X_pow]

/-- The bit that is shifted out is the power the generator stands for. -/
theorem X_mul_poly (x : BitVec w) :
    X * poly x = coeffOf (x.getLsbD 0) * X ^ w + poly (x >>> 1) := by
  cases w with
  | zero => simp [poly, coeffOf]
  | succ w =>
    have hlast : coeffOf ((x >>> 1).getLsbD w) = 0 := by
      rw [BitVec.getLsbD_ushiftRight, BitVec.getLsbD_of_ge x (1 + w) (by omega)]
      rfl
    rw [poly, poly, Finset.sum_range_succ', Finset.sum_range_succ, hlast, zero_mul, add_zero,
      mul_add, Finset.mul_sum, add_comm]
    refine congrArg₂ (· + ·) ?_ ?_
    · rw [Nat.add_sub_cancel, Nat.sub_zero, pow_succ']
      ring
    · refine Finset.sum_congr rfl fun i hi ↦ ?_
      rw [Finset.mem_range] at hi
      rw [BitVec.getLsbD_ushiftRight, Nat.add_comm 1 i,
        show w + 1 - 1 - i = (w + 1 - 1 - (i + 1)) + 1 by omega, pow_succ']
      ring

/-- Input bits of fewer than `w` come in at the top. -/
theorem poly_setWidth (b : BitVec n) (h : n ≤ w) :
    poly (b.setWidth w) = X ^ (w - n) * poly b := by
  obtain ⟨k, rfl⟩ := Nat.exists_eq_add_of_le h
  rw [poly, Finset.sum_range_add, poly, Finset.mul_sum]
  have hhigh : ∑ i ∈ Finset.range k, coeffOf ((b.setWidth (n + k)).getLsbD (n + i)) *
      X ^ (n + k - 1 - (n + i)) = (0 : (ZMod 2)[X]) := by
    refine Finset.sum_eq_zero fun i _ ↦ ?_
    rw [BitVec.getLsbD_setWidth, BitVec.getLsbD_of_ge b (n + i) (by omega), Bool.and_false,
      coeffOf, if_neg (by simp), zero_mul]
  rw [hhigh, add_zero]
  refine Finset.sum_congr rfl fun i hi ↦ ?_
  rw [Finset.mem_range] at hi
  have hbit : (b.setWidth (n + k)).getLsbD i = b.getLsbD i := by
    rw [BitVec.getLsbD_setWidth, decide_eq_true (by omega), Bool.true_and]
  rw [hbit, show n + k - 1 - i = n + k - n + (n - 1 - i) by omega, pow_add]
  ring

/-! ## The register -/

theorem poly_step (p x : BitVec w) :
    X * poly x = generator p * coeffOf (x.getLsbD 0) + poly (step p x) := by
  rw [X_mul_poly, generator, step]
  cases x.getLsbD 0 with
  | true =>
    rw [if_pos rfl, poly_xor, coeffOf, if_pos rfl]
    linear_combination -(add_self (poly p))
  | false => simp [coeffOf]

theorem poly_steps (p : BitVec w) (k : ℕ) (x : BitVec w) :
    ∃ q, X ^ k * poly x = generator p * q + poly (steps p k x) := by
  induction k generalizing x with
  | zero => exact ⟨0, by simp [steps]⟩
  | succ k ih =>
    obtain ⟨q, hq⟩ := ih (step p x)
    refine ⟨X ^ k * coeffOf (x.getLsbD 0) + q, ?_⟩
    rw [steps, pow_succ]
    linear_combination X ^ k * poly_step p x + hq

theorem poly_absorb (p : BitVec w) (x : BitVec w) (b : BitVec n) (h : n ≤ w) :
    ∃ q, X ^ n * poly x + X ^ w * poly b = generator p * q + poly (absorb p x b) := by
  obtain ⟨q, hq⟩ := poly_steps p n (x ^^^ b.setWidth w)
  refine ⟨q, ?_⟩
  have hw : (X : (ZMod 2)[X]) ^ w = X ^ n * X ^ (w - n) := by
    rw [← pow_add, Nat.add_sub_cancel' h]
  rw [poly_xor, poly_setWidth b h] at hq
  rw [absorb, hw]
  linear_combination hq

theorem message_concat (l : List (BitVec n)) (b : BitVec n) :
    message (l ++ [b]) = X ^ n * message l + poly b := by
  rw [message, List.foldl_append]
  rfl

/-- **The register is the remainder of its input**: of what it held at first, moved up by the input,
and of the input, moved up by the register. -/
theorem poly_foldl_absorb (p : BitVec w) (x : BitVec w) (l : List (BitVec n)) (h : n ≤ w) :
    poly (l.foldl (absorb p) x) =
      (X ^ (n * l.length) * poly x + X ^ w * message l) %ₘ generator p := by
  have hex : ∃ q, X ^ (n * l.length) * poly x + X ^ w * message l =
      generator p * q + poly (l.foldl (absorb p) x) := by
    induction l using List.reverseRecOn with
    | nil => exact ⟨0, by simp [message]⟩
    | append_singleton l b ih =>
      obtain ⟨q, hq⟩ := ih
      obtain ⟨q', hq'⟩ := poly_absorb p (l.foldl (absorb p) x) b h
      refine ⟨X ^ n * q + q', ?_⟩
      rw [message_concat, List.length_append, List.length_singleton, List.foldl_append,
        List.foldl_cons, List.foldl_nil, mul_add, mul_one, pow_add]
      linear_combination X ^ n * hq + hq'
  obtain ⟨q, hq⟩ := hex
  refine ((div_modByMonic_unique q _ (monic_generator p) ⟨?_, ?_⟩).2).symm
  · rw [hq, add_comm]
  · rw [degree_generator]
    exact degree_poly_lt _

theorem foldl_absorb_eq (p : BitVec w) (x : BitVec w) (l : List (BitVec n)) (h : n ≤ w) :
    l.foldl (absorb p) x =
      register w ((X ^ (n * l.length) * poly x + X ^ w * message l) %ₘ generator p) := by
  rw [← poly_foldl_absorb p x l h, register_poly]

end ShiftRegister
