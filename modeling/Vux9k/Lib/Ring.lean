import Mathlib.Data.List.Range
import Mathlib.Data.BitVec
import Mathlib.Logic.Function.Basic

/-!
# Ring buffers

A queue of at most `2 ^ w` elements in a memory with addresses of `w` bits, which wrap around:
`ringList mem start n` is the queue of `n` elements that begins at `start`.  Taking the first one
moves `start` (`ringList_succ`), putting one at the end is a write at `start + n`
(`ringList_push`).
-/

set_option autoImplicit false

namespace Vux9k

variable {α : Type} {w : ℕ}

/-- The `n` elements from `start` on. -/
def ringList (mem : BitVec w → α) (start : BitVec w) (n : ℕ) : List α :=
  (List.range n).map fun i ↦ mem (start + BitVec.ofNat w i)

@[simp]
theorem length_ringList (mem : BitVec w → α) (start : BitVec w) (n : ℕ) :
    (ringList mem start n).length = n := by
  simp [ringList]

@[simp]
theorem ringList_zero (mem : BitVec w → α) (start : BitVec w) : ringList mem start 0 = [] := rfl

/-- The first element, and the rest. -/
theorem ringList_succ (mem : BitVec w → α) (start : BitVec w) (n : ℕ) :
    ringList mem start (n + 1) = mem start :: ringList mem (start + 1#w) n := by
  rw [ringList, List.range_succ_eq_map, List.map_cons, List.map_map, ringList]
  congr 1
  · rw [BitVec.add_zero]
  · refine List.map_congr_left fun i _ ↦ ?_
    rw [Function.comp_apply, Nat.succ_eq_one_add, BitVec.ofNat_add, BitVec.add_assoc]

/-- The rest, and the last element. -/
theorem ringList_succ_last (mem : BitVec w → α) (start : BitVec w) (n : ℕ) :
    ringList mem start (n + 1) = ringList mem start n ++ [mem (start + BitVec.ofNat w n)] := by
  rw [ringList, List.range_succ, List.map_append]
  rfl

theorem ofNat_injOn {i j : ℕ} (hi : i < 2 ^ w) (hj : j < 2 ^ w)
    (h : BitVec.ofNat w i = BitVec.ofNat w j) : i = j := by
  have h' := congrArg BitVec.toNat h
  rwa [BitVec.toNat_ofNat, BitVec.toNat_ofNat, Nat.mod_eq_of_lt hi, Nat.mod_eq_of_lt hj] at h'

/-- A write behind the last element leaves the queue as it is. -/
theorem ringList_update (mem : BitVec w → α) (start : BitVec w) {n : ℕ}
    (hn : n < 2 ^ w) (a : α) :
    ringList (Function.update mem (start + BitVec.ofNat w n) a) start n = ringList mem start n := by
  refine List.map_congr_left fun i hi ↦ Function.update_of_ne ?_ _ _
  intro heq
  have hlt := List.mem_range.mp hi
  have := ofNat_injOn (by omega) hn ((BitVec.add_right_inj _).mp heq)
  omega

/-- A write at the end of a queue that is not full makes it longer. -/
theorem ringList_push (mem : BitVec w → α) (start : BitVec w) {n : ℕ}
    (hn : n < 2 ^ w) (a : α) :
    ringList (Function.update mem (start + BitVec.ofNat w n) a) start (n + 1) =
      ringList mem start n ++ [a] := by
  rw [ringList_succ_last, ringList_update mem start hn, Function.update_self]

end Vux9k
