import Mathlib.Data.Nat.Notation
import Mathlib.Tactic.IntervalCases

/-!
# Bytes and words

Multi-byte numbers are little-endian everywhere: on the wire, in the image header and in the file
system.
-/

set_option autoImplicit false

namespace Vux9k

/-- A `u8`. -/
abbrev Byte := BitVec 8

/-- A `u32`. -/
abbrev Word := BitVec 32

/-- The four bytes of a word, lowest first. -/
def leBytes (w : Word) : List Byte :=
  [w.setWidth 8, (w >>> 8).setWidth 8, (w >>> 16).setWidth 8, (w >>> 24).setWidth 8]

/-- What `recv_u32` makes of four bytes. -/
def leWord (b₀ b₁ b₂ b₃ : Byte) : Word :=
  0#32 ||| b₀.setWidth 32 <<< (8 * 0) ||| b₁.setWidth 32 <<< (8 * 1) |||
    b₂.setWidth 32 <<< (8 * 2) ||| b₃.setWidth 32 <<< (8 * 3)

theorem leBytes_length (w : Word) : (leBytes w).length = 4 := rfl

theorem leWord_leBytes (w : Word) :
    leWord (w.setWidth 8) ((w >>> 8).setWidth 8) ((w >>> 16).setWidth 8)
      ((w >>> 24).setWidth 8) = w := by
  apply BitVec.eq_of_getLsbD_eq
  intro i hi
  simp only [leWord, BitVec.getLsbD_or, BitVec.getLsbD_shiftLeft, BitVec.getLsbD_setWidth,
    BitVec.getLsbD_ushiftRight]
  interval_cases i <;> simp

theorem leBytes_injective {v w : Word} (h : leBytes v = leBytes w) : v = w := by
  simp only [leBytes, List.cons.injEq, and_true] at h
  rw [← leWord_leBytes v, ← leWord_leBytes w, h.1, h.2.1, h.2.2.1, h.2.2.2]

theorem leBytes_leWord (b₀ b₁ b₂ b₃ : Byte) :
    leBytes (leWord b₀ b₁ b₂ b₃) = [b₀, b₁, b₂, b₃] := by
  simp only [leBytes, List.cons.injEq, and_true]
  refine ⟨?_, ?_, ?_, ?_⟩ <;>
  · apply BitVec.eq_of_getLsbD_eq
    intro i hi
    simp only [leWord, BitVec.getLsbD_or, BitVec.getLsbD_shiftLeft, BitVec.getLsbD_setWidth,
      BitVec.getLsbD_ushiftRight]
    interval_cases i <;> simp

/-! ## Pieces of a slice -/

section

variable {α : Type}

/-- `chunks(n)`, at most `fuel` of them. -/
def chunksFrom (n : ℕ) : ℕ → List α → List (List α)
  | 0, _ => []
  | fuel + 1, l => if l.isEmpty then [] else l.take n :: chunksFrom n fuel (l.drop n)

/-- `chunks(n)`: pieces of `n` elements, the last one shorter. -/
def chunks (n : ℕ) (l : List α) : List (List α) := chunksFrom n l.length l

theorem chunksFrom_fuel {n : ℕ} (hn : 0 < n) {fuel fuel' : ℕ} {l : List α} (h : l.length ≤ fuel)
    (h' : l.length ≤ fuel') : chunksFrom n fuel l = chunksFrom n fuel' l := by
  induction fuel generalizing fuel' l with
  | zero =>
    obtain rfl := List.eq_nil_of_length_eq_zero (Nat.le_zero.mp h)
    cases fuel' <;> rfl
  | succ fuel ih =>
    cases fuel' with
    | zero =>
      obtain rfl := List.eq_nil_of_length_eq_zero (Nat.le_zero.mp h')
      rfl
    | succ fuel' =>
      rw [chunksFrom, chunksFrom]
      split
      · rfl
      · rename_i hne
        have hpos : 0 < l.length := List.length_pos_iff.mpr (by simpa using hne)
        have hlen : (l.drop n).length ≤ fuel' := by
          rw [List.length_drop]
          omega
        rw [ih (by simp; omega) hlen]

@[simp]
theorem chunks_nil (n : ℕ) : chunks n ([] : List α) = [] := rfl

theorem chunks_of_ne_nil {n : ℕ} (hn : 0 < n) {l : List α} (h : l ≠ []) :
    chunks n l = l.take n :: chunks n (l.drop n) := by
  have hpos : 0 < l.length := List.length_pos_iff.mpr h
  obtain ⟨k, hk⟩ : ∃ k, l.length = k + 1 := ⟨l.length - 1, by omega⟩
  rw [chunks, hk, chunksFrom, if_neg (by simpa using h), chunks,
    chunksFrom_fuel hn (by simp; omega) le_rfl]

/-- Induction along the pieces of a slice. -/
theorem chunks_induction {n : ℕ} (hn : 0 < n) {P : List α → Prop} (nil : P [])
    (step : ∀ l, l ≠ [] → P (l.drop n) → P l) (l : List α) : P l := by
  induction hlen : l.length using Nat.strongRecOn generalizing l with
  | ind k ih =>
    by_cases h : l = []
    · exact h ▸ nil
    · have hpos : 0 < l.length := List.length_pos_iff.mpr h
      exact step l h (ih (l.drop n).length (by simp; omega) _ rfl)

theorem length_chunks_lt {n : ℕ} (hn : 0 < n) (l : List α) :
    (chunks n l).length * n < l.length + n := by
  induction l using chunks_induction hn with
  | nil => simpa using hn
  | step l h ih =>
    have hpos : 0 < l.length := List.length_pos_iff.mpr h
    rw [chunks_of_ne_nil hn h, List.length_cons, Nat.succ_mul]
    by_cases hle : n ≤ l.length
    · rw [List.length_drop] at ih
      omega
    · rw [List.drop_of_length_le (by omega), chunks_nil, List.length_nil]
      omega

theorem flatten_chunks {n : ℕ} (hn : 0 < n) (l : List α) : (chunks n l).flatten = l := by
  induction l using chunks_induction hn with
  | nil => rfl
  | step l h ih => rw [chunks_of_ne_nil hn h, List.flatten_cons, ih, List.take_append_drop]

/-- A piece boundary of the whole is one of the parts. -/
theorem chunks_append {n : ℕ} (hn : 0 < n) {a : List α} (b : List α) (ha : n ∣ a.length) :
    chunks n (a ++ b) = chunks n a ++ chunks n b := by
  induction a using chunks_induction hn with
  | nil => rfl
  | step a hne ih =>
    have hpos : 0 < a.length := List.length_pos_iff.mpr hne
    have hle : n ≤ a.length := Nat.le_of_dvd hpos ha
    have hdrop : n ∣ (a.drop n).length := by
      rw [List.length_drop]
      exact Nat.dvd_sub ha (dvd_refl n)
    rw [chunks_of_ne_nil hn (by simp [hne]), chunks_of_ne_nil hn hne,
      List.take_append_of_le_length hle, List.drop_append_of_le_length hle, ih hdrop,
      List.cons_append]

theorem chunks_of_le {n : ℕ} {l : List α} (h : l ≠ []) (hl : l.length ≤ n) : chunks n l = [l] := by
  have hpos : 0 < l.length := List.length_pos_iff.mpr h
  rw [chunks_of_ne_nil (by omega) h, List.take_of_length_le hl, List.drop_of_length_le hl,
    chunks_nil]

end

end Vux9k
