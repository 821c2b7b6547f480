import Mathlib.Data.BitVec

/-!
# Byte-strobed words

A write of a 32-bit word with one strobe a byte changes the bytes whose strobe is set.  A write-back
cache keeps the strobes of what was stored into a word: `AgreeOff m a b` says that the words `a` (in
the memory behind) and `b` (in the cache) differ in strobed bytes at most, which is what makes a
strobed write of `b` over `a` restore it.
-/

set_option autoImplicit false

namespace Vux9k

/-- `old` with the bytes of `new` whose strobe is set. -/
def strobed (old new : BitVec 32) (be : BitVec 4) : BitVec 32 :=
  (if be.getLsbD 3 then new.extractLsb' 24 8 else old.extractLsb' 24 8) ++
    (if be.getLsbD 2 then new.extractLsb' 16 8 else old.extractLsb' 16 8) ++
    (if be.getLsbD 1 then new.extractLsb' 8 8 else old.extractLsb' 8 8) ++
    (if be.getLsbD 0 then new.extractLsb' 0 8 else old.extractLsb' 0 8)

/-- The bytes of `a` and `b` without a strobe are the same. -/
def AgreeOff (m : BitVec 4) (a b : BitVec 32) : Prop :=
  ∀ i < 32, m.getLsbD (i / 8) = false → a.getLsbD i = b.getLsbD i

variable {old new a b : BitVec 32} {m be : BitVec 4}

theorem getLsbD_lane (c : Bool) (s : ℕ) {j : ℕ} (hj : j < 8) :
    (if c then new.extractLsb' s 8 else old.extractLsb' s 8).getLsbD j =
      if c then new.getLsbD (s + j) else old.getLsbD (s + j) := by
  cases c <;> simp [hj]

theorem getLsbD_strobed {i : ℕ} (hi : i < 32) : (strobed old new be).getLsbD i =
    if be.getLsbD (i / 8) then new.getLsbD i else old.getLsbD i := by
  have hbyte : i < 8 ∨ 8 ≤ i ∧ i < 16 ∨ 16 ≤ i ∧ i < 24 ∨ 24 ≤ i := by omega
  simp only [strobed, BitVec.getLsbD_append]
  rcases hbyte with h | ⟨h, h'⟩ | ⟨h, h'⟩ | h
  · rw [if_pos h, getLsbD_lane _ _ h, Nat.zero_add, Nat.div_eq_of_lt h]
  · rw [if_neg (by omega), if_pos (by omega), getLsbD_lane _ _ (by omega),
      show 8 + (i - 8) = i by omega, show i / 8 = 1 by omega]
  · rw [if_neg (by omega), if_neg (by omega), if_pos (by omega), getLsbD_lane _ _ (by omega),
      show 16 + (i - 8 - 8) = i by omega, show i / 8 = 2 by omega]
  · rw [if_neg (by omega), if_neg (by omega), if_neg (by omega), getLsbD_lane _ _ (by omega),
      show 24 + (i - 8 - 8 - 8) = i by omega, show i / 8 = 3 by omega]

theorem AgreeOff.refl (m : BitVec 4) (a : BitVec 32) : AgreeOff m a a := fun _ _ _ ↦ rfl

/-- A strobed write of the word restores it. -/
theorem AgreeOff.strobed_eq (h : AgreeOff m a b) : strobed a b m = b := by
  refine BitVec.eq_of_getLsbD_eq fun i hi ↦ ?_
  rw [getLsbD_strobed hi]
  split
  · rfl
  · next hm => exact h i hi (by simpa using hm)

/-- A store into the cached word adds its strobes. -/
theorem AgreeOff.store (h : AgreeOff m a b) (new : BitVec 32) (be : BitVec 4) :
    AgreeOff (m ||| be) a (strobed b new be) := by
  intro i hi hm
  rw [BitVec.getLsbD_or, Bool.or_eq_false_iff] at hm
  rw [getLsbD_strobed hi, hm.2, h i hi hm.1]
  rfl

theorem strobed_strobed : strobed (strobed old new be) new be = strobed old new be := by
  refine BitVec.eq_of_getLsbD_eq fun i hi ↦ ?_
  rw [getLsbD_strobed hi, getLsbD_strobed hi]
  split <;> rfl

theorem strobed_all : strobed old new 0b1111#4 = new := by
  refine BitVec.eq_of_getLsbD_eq fun i hi ↦ ?_
  have hm : (0b1111#4 : BitVec 4).getLsbD (i / 8) = true := by
    have hbyte : i / 8 = 0 ∨ i / 8 = 1 ∨ i / 8 = 2 ∨ i / 8 = 3 := by omega
    rcases hbyte with h | h | h | h <;> rw [h] <;> rfl
  rw [getLsbD_strobed hi, hm, if_pos rfl]

end Vux9k
