import Vux9k.Lib.Prog

/-!
# Programs in an environment

An environment has a state; it answers an operation, perhaps in one of several ways, and goes on to
another state.  `p.Meets env I Q s` says that `p`, started in the state `s`, goes only through
states `I`, whatever it is answered, and that `Q` holds if it returns.  It is defined by what `p`
asks next, so it follows the program (`Meets.bind`), and it says what it should about the runs of
`p` (`Meets.run`): `I` holds at every moment of every run, also of those that never end.
-/

set_option autoImplicit false

namespace Vux9k

namespace Prog

variable {Op : Type} {Ans : Op → Type} {S α β : Type}

/-- How an environment answers, and what it does to its state. -/
abbrev Env (Op : Type) (Ans : Op → Type) (S : Type) : Type := S → (o : Op) → Ans o → S → Prop

/-- The environment gives these answers, one after the other. -/
inductive Answers (env : Env Op Ans S) : S → List (Event Op Ans) → S → Prop
  | nil (s : S) : Answers env s [] s
  | cons {s s' s'' : S} {o : Op} {r : Ans o} {es : List (Event Op Ans)} (h : env s o r s')
      (hs : Answers env s' es s'') : Answers env s (⟨o, r⟩ :: es) s''

/-- The environment, as long as it gives only answers that are `ok`. -/
def Env.limit (env : Env Op Ans S) (ok : Event Op Ans → Prop) : Env Op Ans S :=
  fun s o r s' ↦ env s o r s' ∧ ok ⟨o, r⟩

theorem Answers.limit {env : Env Op Ans S} {ok : Event Op Ans → Prop} {s s' : S}
    {es : List (Event Op Ans)} (h : Answers env s es s') (hok : ∀ e ∈ es, ok e) :
    Answers (env.limit ok) s es s' := by
  induction h with
  | nil s => exact .nil s
  | cons hr _ ih =>
    exact .cons ⟨hr, hok _ List.mem_cons_self⟩ (ih fun e he ↦ hok e (List.mem_cons_of_mem _ he))

/-- The program goes through states `I` only, and returns with `Q` if it returns. -/
def Meets (env : Env Op Ans S) (I : S → Prop) : Prog Op Ans α → (α → S → Prop) → S → Prop
  | .ret a, Q, s => Q a s
  | .ask o k, Q, s => ∀ r s', env s o r s' → I s' ∧ (k r).Meets env I Q s'

variable {env : Env Op Ans S} {I : S → Prop} {p : Prog Op Ans α} {Q Q' : α → S → Prop} {s s' : S}

theorem Meets.mono (h : p.Meets env I Q s) (hQ : ∀ a s, Q a s → Q' a s) : p.Meets env I Q' s := by
  induction p generalizing s with
  | ret a => exact hQ a s h
  | ask o k ih => exact fun r s' hr ↦ ⟨(h r s' hr).1, ih r (h r s' hr).2⟩

theorem Meets.bind {f : α → Prog Op Ans β} {R : β → S → Prop} (h : p.Meets env I Q s)
    (hf : ∀ a s, Q a s → (f a).Meets env I R s) : (p >>= f).Meets env I R s := by
  induction p generalizing s with
  | ret a => exact hf a s h
  | ask o k ih => exact fun r s' hr ↦ ⟨(h r s' hr).1, ih r (h r s' hr).2⟩

/-- **What holds of the program holds of its runs.** -/
theorem Meets.run (h : p.Meets env I Q s) {es : List (Event Op Ans)} {q : Prog Op Ans α}
    (hp : p.Path es q) (hs : Answers env s es s') (hI : I s) : I s' ∧ q.Meets env I Q s' := by
  induction hp generalizing s with
  | nil p =>
    cases hs
    exact ⟨hI, h⟩
  | cons _ ih =>
    cases hs with
    | cons hr hs =>
      obtain ⟨hI', h'⟩ := h _ _ hr
      exact ih h' hs hI'

end Prog

end Vux9k
