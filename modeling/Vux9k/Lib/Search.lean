import Mathlib.Data.List.Basic

/-!
# The first occurrence of a list in another

`position` looks through the windows of a list, as `windows(n).position(..)` does.  It finds the
first occurrence (`position_eq_some_iff`), and a search that begins later finds the same one if none
begins before (`position_restart`).
-/

set_option autoImplicit false

namespace Vux9k

variable {α : Type} {needle l : List α} {i j n start : ℕ}

/-- `needle` stands in `l` at index `i`. -/
def OccursAt (needle l : List α) (i : ℕ) : Prop := (l.drop i).take needle.length = needle

/-- The windows of `k` elements, from the first. -/
def windows (k : ℕ) (l : List α) : List (List α) :=
  (List.range (l.length + 1 - k)).map fun i ↦ (l.drop i).take k

/-- The first window that is `needle`. -/
def position [DecidableEq α] (needle l : List α) : Option ℕ :=
  (windows (max needle.length 1) l).findIdx? (· = needle)

theorem OccursAt.le (h : OccursAt needle l i) (hne : needle ≠ []) :
    i + needle.length ≤ l.length := by
  have hlen := congrArg List.length h
  rw [List.length_take, List.length_drop] at hlen
  have := List.length_pos_iff.mpr hne
  omega

theorem occursAt_drop : OccursAt needle (l.drop n) i ↔ OccursAt needle l (n + i) := by
  rw [OccursAt, OccursAt, List.drop_drop]

theorem occursAt_take (hi : i + needle.length ≤ n) :
    OccursAt needle (l.take n) i ↔ OccursAt needle l i := by
  rw [OccursAt, OccursAt, List.drop_take, List.take_take, Nat.min_eq_left (by omega)]

section

variable [DecidableEq α]

/-- **The first occurrence.** -/
theorem position_eq_some_iff (hne : needle ≠ []) :
    position needle l = some i ↔ OccursAt needle l i ∧ ∀ j < i, ¬OccursAt needle l j := by
  have hpos := List.length_pos_iff.mpr hne
  have hmax : max needle.length 1 = needle.length := by omega
  rw [position, hmax, List.findIdx?_eq_some_iff_getElem]
  simp only [windows, List.getElem_map, List.getElem_range, List.length_map, List.length_range,
    decide_eq_true_eq]
  constructor
  · rintro ⟨-, hi, hbefore⟩
    exact ⟨hi, fun j hj ↦ hbefore j hj⟩
  · rintro ⟨hi, hbefore⟩
    have := hi.le hne
    exact ⟨by omega, hi, fun j hj ↦ hbefore j hj⟩

theorem position_eq_none_iff (hne : needle ≠ []) :
    position needle l = none ↔ ∀ i, ¬OccursAt needle l i := by
  have hpos := List.length_pos_iff.mpr hne
  have hmax : max needle.length 1 = needle.length := by omega
  rw [position, hmax, List.findIdx?_eq_none_iff]
  simp only [windows, List.mem_map, List.mem_range, decide_eq_false_iff_not]
  constructor
  · intro h i hi
    have := hi.le hne
    exact h _ ⟨i, by omega, rfl⟩ hi
  · rintro h _ ⟨i, -, rfl⟩
    exact h i

/-- A search may begin later, if no occurrence begins before. -/
theorem position_restart (hne : needle ≠ []) (hstart : n ≤ start)
    (hno : ∀ j, n ≤ j → j < start → ¬OccursAt needle l j) :
    (position needle (l.drop start)).map (start + ·) = (position needle (l.drop n)).map
      (n + ·) := by
  cases hpos : position needle (l.drop n) with
  | none =>
    have hnone := (position_eq_none_iff hne).mp hpos
    have : position needle (l.drop start) = none := by
      refine (position_eq_none_iff hne).mpr fun i hi ↦ ?_
      rw [occursAt_drop] at hi
      exact hnone (start + i - n)
        (occursAt_drop.mpr (by rwa [show n + (start + i - n) = start + i by omega]))
    rw [this]
    rfl
  | some p =>
    obtain ⟨hp, hbefore⟩ := (position_eq_some_iff hne).mp hpos
    rw [occursAt_drop] at hp
    have hle : start ≤ n + p := by
      by_contra hlt
      exact hno (n + p) (by omega) (by omega) hp
    have : position needle (l.drop start) = some (n + p - start) := by
      refine (position_eq_some_iff hne).mpr ⟨?_, fun j hj hocc ↦ ?_⟩
      · rw [occursAt_drop, show start + (n + p - start) = n + p by omega]
        exact hp
      · rw [occursAt_drop] at hocc
        exact hbefore (start + j - n) (by omega)
          (occursAt_drop.mpr (by rwa [show n + (start + j - n) = start + j by omega]))
    rw [this]
    exact congrArg some (show start + (n + p - start) = n + p by omega)

/-- **A search may begin `needle.length` before where the last one ended.** -/
theorem position_overlap (hne : needle ≠ []) (hno : ∀ j, ¬OccursAt needle ((l.take i).drop n) j) :
    (position needle (l.drop (max (i - needle.length) n))).map (max (i - needle.length) n + ·) =
      (position needle (l.drop n)).map (n + ·) := by
  refine position_restart hne (Nat.le_max_right _ _) fun j hn hj hocc ↦ ?_
  have hlt : j + needle.length ≤ i := by omega
  refine hno (j - n) (occursAt_drop.mpr ?_)
  rw [show n + (j - n) = j by omega]
  exact (occursAt_take hlt).mpr hocc

end

end Vux9k
