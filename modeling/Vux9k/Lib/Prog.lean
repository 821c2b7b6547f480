import Mathlib.Logic.Relation

/-!
# Programs that ask their environment

`Prog Op Ans α` is a program that returns an `α` after asking some operations `o : Op`, each of
which the environment answers with an `Ans o`.  It fixes what the program asks and in which order,
and nothing about who answers: the same program is run against a list of inputs, put into a system
with another program at the other end of a channel, or looked at for every sequence of answers at
once.

The last of these is `Prog.Path`: `p.Path es q` says that the events `es` — operations with their
answers — lead from `p` to `q`.  Sequencing splits a path (`Path.bind`), so what can be said about
every run of a composed program follows from the same for its parts.
-/

set_option autoImplicit false

namespace Vux9k

/-- A program returning an `α`, whose operations `Op` are answered by its environment. -/
inductive Prog (Op : Type) (Ans : Op → Type) (α : Type) : Type
  | ret (a : α)
  | ask (o : Op) (k : Ans o → Prog Op Ans α)

namespace Prog

variable {Op : Type} {Ans : Op → Type} {α β γ : Type}

/-- Run `p`, then go on with its result. -/
protected def bind : Prog Op Ans α → (α → Prog Op Ans β) → Prog Op Ans β
  | .ret a, f => f a
  | .ask o k, f => .ask o fun r ↦ (k r).bind f

instance : Monad (Prog Op Ans) where
  pure := .ret
  bind := Prog.bind

@[simp]
theorem ret_bind (a : α) (f : α → Prog Op Ans β) : (Prog.ret a >>= f) = f a := rfl

@[simp]
theorem pure_bind' (a : α) (f : α → Prog Op Ans β) : ((pure a : Prog Op Ans α) >>= f) = f a := rfl

@[simp]
theorem pure_eq (a : α) : (pure a : Prog Op Ans α) = .ret a := rfl

@[simp]
theorem ask_bind (o : Op) (k : Ans o → Prog Op Ans α) (f : α → Prog Op Ans β) :
    (Prog.ask o k >>= f) = .ask o fun r ↦ k r >>= f := rfl

@[simp]
theorem bind_assoc (p : Prog Op Ans α) (f : α → Prog Op Ans β) (g : β → Prog Op Ans γ) :
    (p >>= f >>= g) = p >>= fun a ↦ f a >>= g := by
  induction p with
  | ret a => rfl
  | ask o k ih => simp only [ask_bind, ih]

theorem bind_congr {p : Prog Op Ans α} {f g : α → Prog Op Ans β} (h : ∀ a, f a = g a) :
    p >>= f = p >>= g :=
  congrArg (p >>= ·) (funext h)

theorem ask_congr {o : Op} {k k' : Ans o → Prog Op Ans α} (h : ∀ r, k r = k' r) :
    Prog.ask o k = .ask o k' :=
  congrArg (Prog.ask o) (funext h)

/-! ## Every sequence of answers -/

/-- An operation together with the answer it got. -/
abbrev Event (Op : Type) (Ans : Op → Type) := (o : Op) × Ans o

/-- The events `es` lead from one program to what is left of it. -/
inductive Path : Prog Op Ans α → List (Event Op Ans) → Prog Op Ans α → Prop
  | nil (p : Prog Op Ans α) : Path p [] p
  | cons {o : Op} {k : Ans o → Prog Op Ans α} {r : Ans o} {es : List (Event Op Ans)}
      {q : Prog Op Ans α} (h : Path (k r) es q) : Path (.ask o k) (⟨o, r⟩ :: es) q

@[simp]
theorem path_nil {p q : Prog Op Ans α} : p.Path [] q ↔ p = q := by
  constructor
  · rintro ⟨⟩; rfl
  · rintro rfl; exact .nil p

theorem path_ret {a : α} {es : List (Event Op Ans)} {q : Prog Op Ans α} :
    (Prog.ret a).Path es q ↔ es = [] ∧ q = .ret a := by
  constructor
  · rintro ⟨⟩; exact ⟨rfl, rfl⟩
  · rintro ⟨rfl, rfl⟩; exact .nil _

theorem path_ask {o : Op} {k : Ans o → Prog Op Ans α} {es : List (Event Op Ans)}
    {q : Prog Op Ans α} : (Prog.ask o k).Path es q ↔
      es = [] ∧ q = .ask o k ∨ ∃ r es', es = ⟨o, r⟩ :: es' ∧ (k r).Path es' q := by
  constructor
  · intro h
    cases h with
    | nil => exact .inl ⟨rfl, rfl⟩
    | cons h => exact .inr ⟨_, _, rfl, h⟩
  · rintro (⟨rfl, rfl⟩ | ⟨r, es', rfl, h⟩)
    · exact .nil _
    · exact .cons h

/-- One more event at the end of a path. -/
theorem Path.snoc {p : Prog Op Ans α} {es : List (Event Op Ans)} {o : Op}
    {k : Ans o → Prog Op Ans α} (h : p.Path es (.ask o k)) (r : Ans o) :
    p.Path (es ++ [⟨o, r⟩]) (k r) := by
  generalize hq : Prog.ask o k = q at h
  induction h with
  | nil p => subst hq; exact .cons (.nil _)
  | cons _ ih => exact .cons (ih hq)

/-- **Sequencing splits a path**: either the first program is still running, or it has returned
and the rest is a path of what follows. -/
theorem path_bind {p : Prog Op Ans α} {f : α → Prog Op Ans β} {es : List (Event Op Ans)}
    {q : Prog Op Ans β} : (p >>= f).Path es q ↔
      (∃ p', p.Path es p' ∧ (∀ a, p' ≠ .ret a) ∧ q = p' >>= f) ∨
      ∃ a es₁ es₂, es = es₁ ++ es₂ ∧ p.Path es₁ (.ret a) ∧ (f a).Path es₂ q := by
  induction p generalizing es with
  | ret a =>
    constructor
    · intro h
      exact .inr ⟨a, [], es, rfl, .nil _, h⟩
    · rintro (⟨p', hp, hne, rfl⟩ | ⟨b, es₁, es₂, rfl, hp, hf⟩)
      · rw [path_ret] at hp
        exact absurd hp.2 (hne a)
      · rw [path_ret] at hp
        obtain ⟨rfl, hb⟩ := hp
        cases hb
        exact hf
  | ask o k ih =>
    rw [ask_bind, path_ask]
    constructor
    · rintro (⟨rfl, rfl⟩ | ⟨r, es', rfl, h⟩)
      · exact .inl ⟨.ask o k, .nil _, by simp, rfl⟩
      · rcases (ih r).mp h with ⟨p', hp, hne, rfl⟩ | ⟨a, es₁, es₂, rfl, hp, hf⟩
        · exact .inl ⟨p', .cons hp, hne, rfl⟩
        · exact .inr ⟨a, ⟨o, r⟩ :: es₁, es₂, rfl, .cons hp, hf⟩
    · rintro (⟨p', hp, hne, rfl⟩ | ⟨a, es₁, es₂, rfl, hp, hf⟩)
      · rcases path_ask.mp hp with ⟨rfl, rfl⟩ | ⟨r, es', rfl, h⟩
        · exact .inl ⟨rfl, rfl⟩
        · exact .inr ⟨r, es', rfl, (ih r).mpr (.inl ⟨p', h, hne, rfl⟩)⟩
      · rcases path_ask.mp hp with ⟨_, h⟩ | ⟨r, es', rfl, h⟩
        · simp at h
        · exact .inr ⟨r, es' ++ es₂, rfl, (ih r).mpr (.inr ⟨a, es', es₂, rfl, h, hf⟩)⟩

/-- A finished path of a composed program is a finished path of each part. -/
theorem path_bind_ret {p : Prog Op Ans α} {f : α → Prog Op Ans β} {es : List (Event Op Ans)}
    {b : β} : (p >>= f).Path es (.ret b) ↔
      ∃ a es₁ es₂, es = es₁ ++ es₂ ∧ p.Path es₁ (.ret a) ∧ (f a).Path es₂ (.ret b) := by
  rw [path_bind]
  refine or_iff_right ?_
  rintro ⟨p', -, hne, h⟩
  cases p' with
  | ret a => exact hne a rfl
  | ask o k => simp at h

/-! ## Operations a program never asks -/

/-- The program asks none of the operations `P`, whatever it is answered. -/
def Avoids (P : Op → Prop) : Prog Op Ans α → Prop
  | .ret _ => True
  | .ask o k => ¬P o ∧ ∀ r, (k r).Avoids P

variable {P : Op → Prop}

@[simp]
theorem avoids_ret (a : α) : (Prog.ret a : Prog Op Ans α).Avoids P := trivial

@[simp]
theorem avoids_ask {o : Op} {k : Ans o → Prog Op Ans α} :
    (Prog.ask o k).Avoids P ↔ ¬P o ∧ ∀ r, (k r).Avoids P := Iff.rfl

theorem Avoids.bind {p : Prog Op Ans α} {f : α → Prog Op Ans β} (hp : p.Avoids P)
    (hf : ∀ a, (f a).Avoids P) : (p >>= f).Avoids P := by
  induction p with
  | ret a => exact hf a
  | ask o k ih => exact ⟨hp.1, fun r ↦ ih r (hp.2 r)⟩

theorem Path.avoids {p q : Prog Op Ans α} {es : List (Event Op Ans)} (h : p.Path es q)
    (hp : p.Avoids P) : ∀ e ∈ es, ¬P e.1 := by
  induction h with
  | nil => simp
  | cons _ ih =>
    intro e he
    rcases List.mem_cons.mp he with rfl | he
    · exact hp.1
    · exact ih (hp.2 _) e he

/-- What is left of the program asks none of them either. -/
theorem Path.avoids_rest {p q : Prog Op Ans α} {es : List (Event Op Ans)} (h : p.Path es q)
    (hp : p.Avoids P) : q.Avoids P := by
  induction h with
  | nil => exact hp
  | cons _ ih => exact ih (hp.2 _)

end Prog

end Vux9k
