import Vux9k.Fat.Card

/-!
# Whatever the card answers

`Runs m v es x v'`: when the card answers as in `es`, the method `m` of the volume `v` returns `x`
and leaves the volume `v'`.  Nothing is assumed of the answers, so what holds of every run holds of
every card: one that fails, one that changes under the program, one full of garbage.

The loop over a file's sectors decides by the volume and the card alone where to go next, never by
what the closure has made of the sectors so far.  So a run of it is a list of pieces (`HandsOver`),
the same for every closure.
-/

set_option autoImplicit false

namespace Vux9k

/-- An operation of the card with its answer. -/
abbrev FatEvent := Prog.Event FatOp FatOp.Ans

variable {α β : Type} {v v' : Volume} {es : List FatEvent}

/-- The method returns `x` when the card answers as in `es`. -/
def Runs (m : Vol α) (v : Volume) (es : List FatEvent) (x : Except FatError α) (v' : Volume) :
    Prop :=
  (m v).Path es (.ret (x, v'))

theorem runs_pure {a : α} {x : Except FatError α} :
    Runs (pure a : Vol α) v es x v' ↔ es = [] ∧ x = .ok a ∧ v' = v := by
  rw [Runs, show (pure a : Vol α) v = .ret (.ok a, v) from rfl, Prog.path_ret]
  simp only [Prog.ret.injEq, Prod.mk.injEq]

theorem runs_throw {e : FatError} {x : Except FatError α} :
    Runs (Vol.throw e : Vol α) v es x v' ↔ es = [] ∧ x = .error e ∧ v' = v := by
  rw [Runs, Vol.throw, Prog.path_ret]
  simp only [Prog.ret.injEq, Prod.mk.injEq]

theorem runs_gets {f : Volume → α} {x : Except FatError α} :
    Runs (Vol.gets f) v es x v' ↔ es = [] ∧ x = .ok (f v) ∧ v' = v := by
  rw [Runs, Vol.gets, Prog.path_ret]
  simp only [Prog.ret.injEq, Prod.mk.injEq]

theorem runs_attempt {m : Vol α} {x : Except FatError (Except FatError α)} :
    Runs (Vol.attempt m) v es x v' ↔ ∃ y, x = .ok y ∧ Runs m v es y v' := by
  rw [Runs, Vol.attempt, Prog.path_bind_ret]
  constructor
  · rintro ⟨⟨y, w⟩, es₁, es₂, rfl, h₁, h₂⟩
    obtain ⟨rfl, heq⟩ := Prog.path_ret.mp h₂
    cases heq
    rw [List.append_nil]
    exact ⟨y, rfl, h₁⟩
  · rintro ⟨y, rfl, h⟩
    exact ⟨(y, v'), es, [], (List.append_nil es).symm, h, .nil _⟩

/-- A method and what follows it, when the method succeeds. -/
theorem Runs.bind {m : Vol α} {f : α → Vol β} {es₁ es₂ : List FatEvent} {a : α} {w : Volume}
    {x : Except FatError β} (hm : Runs m v es₁ (.ok a) w) (hf : Runs (f a) w es₂ x v') :
    Runs (m >>= f) v (es₁ ++ es₂) x v' :=
  Prog.path_bind_ret.mpr ⟨(.ok a, w), es₁, es₂, rfl, hm, hf⟩

theorem runs_bind {m : Vol α} {f : α → Vol β} {x : Except FatError β}
    (h : Runs (m >>= f) v es x v') :
    (∃ a w es₁ es₂, es = es₁ ++ es₂ ∧ Runs m v es₁ (.ok a) w ∧ Runs (f a) w es₂ x v') ∨
      ∃ e, x = .error e ∧ Runs m v es (.error e) v' := by
  obtain ⟨⟨y, w⟩, es₁, es₂, rfl, h₁, h₂⟩ := Prog.path_bind_ret.mp h
  cases y with
  | ok a => exact .inl ⟨a, w, es₁, es₂, rfl, h₁, h₂⟩
  | error e =>
    obtain ⟨rfl, heq⟩ := Prog.path_ret.mp h₂
    cases heq
    rw [List.append_nil]
    exact .inr ⟨e, rfl, h₁⟩

/-- What a card that works answers is one run. -/
theorem exists_path_onCard (p : FatProg α) (c : Card) : ∃ es, p.Path es (.ret (onCard p c).1) := by
  induction p generalizing c with
  | ret a => exact ⟨[], .nil _⟩
  | ask o k ih =>
    cases o with
    | read lba =>
      obtain ⟨es, h⟩ := ih (some (c lba)) c
      exact ⟨_, .cons h⟩
    | write lba s =>
      obtain ⟨es, h⟩ := ih true (Function.update c lba s)
      exact ⟨_, .cons h⟩

/-! ## The pieces of a file -/

/-- A loop over sectors, with the closure it is given. -/
abbrev SectorLoop (β : Type) : Type 1 :=
  (σ : Type) → (σ → List Byte → σ) → σ → Vol (Except FatError β × σ)

/-- With these answers the loop gives these pieces to the closure, whichever it is. -/
def HandsOver (loop : SectorLoop β) (v : Volume) (es : List FatEvent) (r : Except FatError β)
    (pieces : List (List Byte)) (v' : Volume) : Prop :=
  ∀ (σ : Type) (f : σ → List Byte → σ) (st : σ),
    Runs (loop σ f st) v es (.ok (r, pieces.foldl f st)) v'

/-- Every run of the loop hands over some pieces, which are as `spec` says. -/
def Hands (loop : SectorLoop β) (v : Volume)
    (spec : Except FatError β → List (List Byte) → Prop) : Prop :=
  ∀ (σ : Type) (f : σ → List Byte → σ) (st : σ) (es : List FatEvent)
    (x : Except FatError (Except FatError β × σ)) (v' : Volume), Runs (loop σ f st) v es x v' →
    ∃ r pieces, x = .ok (r, pieces.foldl f st) ∧ HandsOver loop v es r pieces v' ∧ spec r pieces

variable {loop : SectorLoop β} {spec spec' : Except FatError β → List (List Byte) → Prop}

theorem Hands.mono (h : Hands loop v spec) (himp : ∀ r ps, spec r ps → spec' r ps) :
    Hands loop v spec' := by
  intro σ f st es x v' hrun
  obtain ⟨r, ps, hx, hand, hspec⟩ := h σ f st es x v' hrun
  exact ⟨r, ps, hx, hand, himp r ps hspec⟩

/-- A loop that is over. -/
theorem hands_pure {r : Except FatError β} (hspec : spec r []) :
    Hands (fun _ _ st ↦ pure (r, st)) v spec := by
  intro σ f st es x v' hrun
  obtain ⟨rfl, rfl, rfl⟩ := runs_pure.mp hrun
  exact ⟨r, [], rfl, fun σ f st ↦ runs_pure.mpr ⟨rfl, rfl, rfl⟩, hspec⟩

/-- A piece for the closure, then the rest of the loop. -/
theorem Hands.push {p : List Byte} (h : Hands loop v fun r ps ↦ spec r (p :: ps)) :
    Hands (fun σ f st ↦ loop σ f (f st p)) v spec := by
  intro σ f st es x v' hrun
  obtain ⟨r, ps, hx, hand, hspec⟩ := h σ f (f st p) es x v' hrun
  exact ⟨r, p :: ps, hx, fun σ f st ↦ hand σ f (f st p), hspec⟩

/-- A question to the card, which the closure has no part in. -/
theorem hands_attempt {m : Vol α} {loop : Except FatError α → SectorLoop β}
    (h : ∀ y w, Hands (loop y) w spec) :
    Hands (fun σ f st ↦ Vol.attempt m >>= fun y ↦ loop y σ f st) v spec := by
  intro σ f st es x v' hrun
  rcases runs_bind hrun with ⟨y, w, es₁, es₂, rfl, h₁, h₂⟩ | ⟨e, -, h₁⟩
  · obtain ⟨r, ps, hx, hand, hspec⟩ := h y w σ f st es₂ x v' h₂
    exact ⟨r, ps, hx, fun σ f st ↦ h₁.bind (hand σ f st), hspec⟩
  · obtain ⟨y, hy, -⟩ := runs_attempt.mp h₁
    cases hy

theorem hands_gets {g : Volume → α} {loop : α → SectorLoop β} (h : Hands (loop (g v)) v spec) :
    Hands (fun σ f st ↦ Vol.gets g >>= fun y ↦ loop y σ f st) v spec := by
  intro σ f st es x v' hrun
  have hget : Runs (Vol.gets g) v [] (.ok (g v)) v := runs_gets.mpr ⟨rfl, rfl, rfl⟩
  rcases runs_bind hrun with ⟨y, w, es₁, es₂, rfl, h₁, h₂⟩ | ⟨e, -, h₁⟩
  · obtain ⟨rfl, heq, rfl⟩ := runs_gets.mp h₁
    cases heq
    obtain ⟨r, ps, hx, hand, hspec⟩ := h σ f st es₂ x v' h₂
    exact ⟨r, ps, hx, fun σ f st ↦ hget.bind (hand σ f st), hspec⟩
  · cases (runs_gets.mp h₁).2.1

/-- One loop after the other. -/
theorem Hands.bind {γ : Type} {loop : SectorLoop γ} {k : Except FatError γ → SectorLoop β}
    {first : Except FatError γ → List (List Byte) → Prop} (h : Hands loop v first)
    (hnext : ∀ r ps w, first r ps → Hands (k r) w fun q qs ↦ spec q (ps ++ qs)) :
    Hands (fun σ f st ↦ loop σ f st >>= fun y ↦ k y.1 σ f y.2) v spec := by
  intro σ f st es x v' hrun
  rcases runs_bind hrun with ⟨y, w, es₁, es₂, rfl, h₁, h₂⟩ | ⟨e, -, h₁⟩
  · obtain ⟨r, ps, heq, hand, hfirst⟩ := h σ f st es₁ (.ok y) w h₁
    cases heq
    obtain ⟨q, qs, rfl, hand', hspec⟩ := hnext r ps w hfirst σ f _ es₂ x v' h₂
    refine ⟨q, ps ++ qs, by rw [List.foldl_append], fun σ f st ↦ ?_, hspec⟩
    rw [List.foldl_append]
    exact (hand σ f st).bind (hand' σ f _)
  · obtain ⟨r, ps, heq, -⟩ := h σ f st es _ v' h₁
    cases heq

/-- The pieces of (part of) a file with `rest` bytes to go, `left r` of them left if all is well. -/
structure PiecesOf (rest : ℕ) (left : Option ℕ) (ps : List (List Byte)) : Prop where
  le : ps.flatten.length ≤ rest
  short : ∀ p ∈ ps, p.length ≤ sectorLen
  all : ∀ k, left = some k → ps.flatten.length + k = rest

theorem PiecesOf.nil {rest : ℕ} {left : Option ℕ} (h : ∀ k, left = some k → k = rest) :
    PiecesOf rest left [] :=
  ⟨by simp, by simp, fun k hk ↦ by simp [h k hk]⟩

theorem PiecesOf.append {rest rest' : ℕ} {left : Option ℕ} {ps qs : List (List Byte)}
    (hp : PiecesOf rest (some rest') ps) (hq : PiecesOf rest' left qs) :
    PiecesOf rest left (ps ++ qs) := by
  have hall := hp.all rest' rfl
  refine ⟨?_, ?_, ?_⟩
  · have := hq.le
    rw [List.flatten_append, List.length_append]
    omega
  · intro p hmem
    rcases List.mem_append.mp hmem with hmem | hmem
    · exact hp.short p hmem
    · exact hq.short p hmem
  · intro k hk
    have := hq.all k hk
    rw [List.flatten_append, List.length_append]
    omega

/-- The next piece. -/
theorem piecesOf_bytesOf (buf : Sector) (rest : ℕ) :
    PiecesOf rest (some (rest - min rest sectorLen)) [bytesOf buf (min rest sectorLen)] := by
  refine ⟨by simp, by simp, ?_⟩
  rintro k ⟨⟩
  simp only [List.flatten_cons, List.flatten_nil, List.append_nil, length_bytesOf]
  omega

theorem hands_eachSector (v : Volume) (lba n s rest : ℕ) :
    Hands (fun _ f st ↦ Vol.eachSector f lba n s rest st) v fun r ↦ PiecesOf rest r.toOption := by
  induction n generalizing v s rest with
  | zero =>
    refine hands_pure (.nil ?_)
    rintro k ⟨⟩
    rfl
  | succ n ih =>
    refine hands_attempt fun y w ↦ ?_
    cases y with
    | error e => exact hands_pure (.nil nofun)
    | ok buf =>
      have hpiece := piecesOf_bytesOf buf rest
      by_cases hlast : rest - min rest sectorLen = 0
      · simp only [hlast, if_true]
        refine (hands_pure ?_).push
        rwa [hlast] at hpiece
      · simp only [hlast, if_false]
        refine Hands.push ?_
        exact (ih w (s + 1) _).mono fun r ps hps ↦ hpiece.append hps

/-- What `for_each_sector` does after a cluster's sectors. -/
def afterSectors (fuel c : ℕ) (r : Except FatError ℕ) : SectorLoop Unit := fun _ f st ↦
  match r with
  | .error e => pure (.error e, st)
  | .ok rest => do
    match ← Vol.attempt (Vol.nextCluster c) with
    | .error e => pure (.error e, st)
    | .ok next =>
      if rest = 0 then
        match next with
        | none => pure (.ok (), st)
        | some _ => pure (.error (.badChain c), st)
      else
        match next with
        | none => pure (.error (.badChain c), st)
        | some next => Vol.eachCluster f fuel next rest st

theorem hands_eachCluster (v : Volume) (fuel c rest : ℕ) :
    Hands (fun _ f st ↦ Vol.eachCluster f fuel c rest st) v fun r ↦
      PiecesOf rest (r.toOption.map fun _ ↦ 0) := by
  induction fuel generalizing v c rest with
  | zero => exact hands_pure (.nil nofun)
  | succ fuel ih =>
    refine hands_gets ?_
    by_cases hc : v.isCluster c = true
    swap
    · simp only [id, hc]
      exact hands_pure (.nil nofun)
    simp only [id, hc, not_true_eq_false, if_false]
    refine (hands_eachSector v _ _ 0 rest).bind (k := afterSectors fuel c) fun r ps w hps ↦ ?_
    cases r with
    | error e => exact hands_pure (by simpa using ⟨hps.le, hps.short, nofun⟩)
    | ok k =>
      refine hands_attempt fun y w' ↦ ?_
      have hfail : PiecesOf rest none (ps ++ []) := by
        rw [List.append_nil]
        exact ⟨hps.le, hps.short, nofun⟩
      cases y with
      | error e => exact hands_pure hfail
      | ok next =>
        by_cases hk : k = 0
        · simp only [hk, if_true]
          cases next with
          | none =>
            refine hands_pure ?_
            rw [List.append_nil]
            rwa [hk] at hps
          | some next => exact hands_pure hfail
        · simp only [hk, if_false]
          cases next with
          | none => exact hands_pure hfail
          | some next => exact (ih w' next k).mono fun q qs hqs ↦ hps.append hqs

/-- **The pieces of a file**, whatever is on the card: no more bytes than its size says, and all of
them if the loop succeeds. -/
theorem hands_forEachSector (v : Volume) (file : DirEntry) :
    Hands (fun _ f st ↦ Vol.forEachSector file f st) v fun r ↦
      PiecesOf file.size (r.toOption.map fun _ ↦ 0) := by
  unfold Vol.forEachSector
  split
  · exact hands_pure (.nil nofun)
  split
  next hsize =>
    split
    · refine hands_pure (.nil ?_)
      rintro k ⟨⟩
      exact hsize.symm
    · exact hands_pure (.nil nofun)
  · exact hands_eachCluster v _ _ _

end Vux9k
