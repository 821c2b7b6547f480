import Mathlib.Order.Basic
import Vux9k.Emu.Soc

/-!
# What an instruction can tell of what is behind the bus

Two states of what is behind the bus are related if every call gives the same answer on both and
leaves them related (`Related`).  Then an instruction does the same on both.  The relation `P t` is
for calls from cycle `t` on; a write of a peripheral leaves the states in `Q` instead, and no call
of the instruction follows it.
-/

set_option autoImplicit false

namespace Vux9k.Emu

variable {σ : Type}

/-- The bus cannot tell related states apart. -/
structure Related (bus : Bus σ) (P Q : ℕ → σ → σ → Prop) : Prop where
  mono : ∀ {t t' x y}, P t x y → t ≤ t' → P t' x y
  fetch : ∀ {t x y} m pc, P t x y →
    (bus.fetch m pc y).1 = (bus.fetch m pc x).1 ∧ P t (bus.fetch m pc x).2 (bus.fetch m pc y).2
  loadWait : ∀ {t x y} addr, P t x y →
    (bus.loadWait addr y).1 = (bus.loadWait addr x).1 ∧
      P t (bus.loadWait addr x).2 (bus.loadWait addr y).2
  readWord : ∀ {t x y} addr, P t x y →
    (bus.readWord addr t y).1 = (bus.readWord addr t x).1 ∧
      P (t + 2) (bus.readWord addr t x).2 (bus.readWord addr t y).2
  write : ∀ {t x y} addr v be, P t x y →
    (bus.write addr v be t y).1 = (bus.write addr v be t x).1 ∧
      (P t (bus.write addr v be t x).2 (bus.write addr v be t y).2 ∨
        (bus.write addr v be t x).1 = 0 ∧
          Q (t + 2) (bus.write addr v be t x).2 (bus.write addr v be t y).2)
  hackRead : ∀ {t x y} a, P t x y →
    (bus.hackRead a t y).1 = (bus.hackRead a t x).1 ∧
      P (t + 2) (bus.hackRead a t x).2 (bus.hackRead a t y).2
  hackWrite : ∀ {t x y} a v, P t x y →
    (bus.hackWrite a v t y).1 = (bus.hackWrite a v t x).1 ∧
      (P t (bus.hackWrite a v t x).2 (bus.hackWrite a v t y).2 ∨
        (bus.hackWrite a v t x).1 = 0 ∧
          Q t (bus.hackWrite a v t x).2 (bus.hackWrite a v t y).2)
  mipAt : ∀ {t x y}, P t x y →
    (bus.mipAt t y).1 = (bus.mipAt t x).1 ∧ P t (bus.mipAt t x).2 (bus.mipAt t y).2
  mtime : ∀ {t x y} c, P t x y → bus.mtime c y = bus.mtime c x

namespace Soc

variable {bus : Bus σ} {P Q : ℕ → σ → σ → Prop}

/-- The same CPU with something else behind the bus. -/
def withMem (s : Soc σ) (y : σ) : Soc σ := { s with mem := y }

/-- The ends of an instruction that began in cycle `t`. -/
structure Ends (P Q : ℕ → σ → σ → Prop) (t : ℕ) (q q' : Soc σ × Retire) : Prop where
  cpu : q' = (q.1.withMem q'.1.mem, q.2)
  cycle : q.1.cycle = t
  two : 2 ≤ q.2.cycles
  mem : P (t + q.2.cycles) q.1.mem q'.1.mem ∨
    ∃ e, Q e q.1.mem q'.1.mem ∧ e ≤ t + q.2.cycles ∧ t + q.2.cycles ≤ e + 3

section

variable {s : Soc σ} {x y : σ} {t : ℕ} {r : Retire}

theorem writeRd_withMem (s : Soc σ) (y : σ) (rd : BitVec 5) (v : Word) (r : Retire) :
    (s.withMem y).writeRd rd v r = ((s.writeRd rd v r).1.withMem y, (s.writeRd rd v r).2) := by
  unfold writeRd
  split <;> rfl

theorem writeRd_keeps (s : Soc σ) (rd : BitVec 5) (v : Word) (r : Retire) :
    (s.writeRd rd v r).1.mem = s.mem ∧ (s.writeRd rd v r).1.cycle = s.cycle ∧
      (s.writeRd rd v r).2.cycles = r.cycles := by
  unfold writeRd
  split <;> exact ⟨rfl, rfl, rfl⟩

/-- An instruction that makes no call. -/
theorem Ends.silent {q : Soc σ × Retire} (hmem : P (t + q.2.cycles) q.1.mem y)
    (hcycle : q.1.cycle = t) (htwo : 2 ≤ q.2.cycles) : Ends P Q t q (q.1.withMem y, q.2) :=
  ⟨rfl, hcycle, htwo, .inl hmem⟩

/-- A trap. -/
theorem ends_takeTrap (hB : Related bus P Q) (h : P s.cycle s.mem y) (cause tval : Word) :
    Ends P Q s.cycle (s.takeTrap cause tval r) ((s.withMem y).takeTrap cause tval r) :=
  .silent (q := s.takeTrap cause tval r) (hB.mono h (Nat.le_add_right _ _)) rfl le_rfl

/-- The end of an instruction after its calls. -/
theorem ends_retire (hmem : P (t + r.cycles) s.mem y ∨
      ∃ e, Q e s.mem y ∧ e ≤ t + r.cycles ∧ t + r.cycles ≤ e + 3)
    (hcycle : s.cycle = t) (htwo : 2 ≤ r.cycles) (next : Word) (counts : Bool) :
    Ends P Q t (s.retire next counts r) ((s.withMem y).retire next counts r) :=
  ⟨rfl, hcycle, htwo, hmem⟩

/-- The end of an instruction that writes `rd`. -/
theorem ends_writeRd (hmem : P (t + r.cycles) s.mem y ∨
      ∃ e, Q e s.mem y ∧ e ≤ t + r.cycles ∧ t + r.cycles ≤ e + 3)
    (hcycle : s.cycle = t) (htwo : 2 ≤ r.cycles) (rd : BitVec 5) (v next : Word) (counts : Bool) :
    Ends P Q t ((s.writeRd rd v r).1.retire next counts (s.writeRd rd v r).2)
      (((s.withMem y).writeRd rd v r).1.retire next counts ((s.withMem y).writeRd rd v r).2) := by
  obtain ⟨hm, hc, hr⟩ := writeRd_keeps s rd v r
  rw [writeRd_withMem]
  refine ends_retire ?_ (hc.trans hcycle) (by rw [hr]; exact htwo) next counts
  rw [hm, hr]
  exact hmem

/-- A CSR instruction, up to its write of `rd`. -/
theorem execCsr_withMem (hB : Related bus P Q) (h : P s.cycle s.mem y) (i : Word) :
    ∃ (counts : Bool) (s₁ : Soc σ) (v : Word), s.execCsr bus i r = (counts, s₁.writeRd (rd i) v r) ∧
      (s.withMem y).execCsr bus i r =
        (counts, (s₁.withMem (bus.mipAt s.cycle y).2).writeRd (rd i) v r) ∧
      s₁.mem = (bus.mipAt s.cycle s.mem).2 ∧ s₁.cycle = s.cycle := by
  obtain ⟨hmip, hmem⟩ := hB.mipAt h
  have htime := hB.mtime s.cycle hmem
  have hmip' : (bus.mipAt (s.withMem y).cycle (s.withMem y).mem).1 =
      (bus.mipAt s.cycle s.mem).1 := hmip
  have htime' : bus.mtime (s.withMem y).cycle (bus.mipAt (s.withMem y).cycle (s.withMem y).mem).2 =
      bus.mtime s.cycle (bus.mipAt s.cycle s.mem).2 := htime
  unfold execCsr
  dsimp only
  rw [hmip', htime']
  split
  · split
    all_goals exact ⟨_, _, _, rfl, rfl, rfl, rfl⟩
  · exact ⟨_, _, _, rfl, rfl, rfl, rfl⟩

/-- A CSR instruction. -/
theorem ends_execCsr (hB : Related bus P Q) (h : P s.cycle s.mem y) (i next : Word)
    (htwo : 2 ≤ r.cycles) :
    Ends P Q s.cycle
      ((s.execCsr bus i r).2.1.retire next (s.execCsr bus i r).1 (s.execCsr bus i r).2.2)
      (((s.withMem y).execCsr bus i r).2.1.retire next ((s.withMem y).execCsr bus i r).1
        ((s.withMem y).execCsr bus i r).2.2) := by
  obtain ⟨counts, s₁, v, hx, hy, hm, hc⟩ := execCsr_withMem (r := r) hB h i
  rw [hx, hy]
  refine ends_writeRd (.inl ?_) hc htwo _ _ _ _
  rw [hm]
  exact hB.mono (hB.mipAt h).2 (Nat.le_add_right _ _)

/-- What is left behind the bus after the calls of an instruction of `cycles` cycles. -/
def Left (P Q : ℕ → σ → σ → Prop) (t cycles : ℕ) (x y : σ) : Prop :=
  P (t + cycles) x y ∨ ∃ e, Q e x y ∧ e ≤ t + cycles ∧ t + cycles ≤ e + 3

/-- A load. -/
theorem left_load (hB : Related bus P Q) (h : P t x y) (addr : Word) :
    (bus.loadWait addr y).1 = (bus.loadWait addr x).1 ∧
      (bus.readWord addr t (bus.loadWait addr y).2).1 =
        (bus.readWord addr t (bus.loadWait addr x).2).1 ∧
      P (t + 2) (bus.readWord addr t (bus.loadWait addr x).2).2
        (bus.readWord addr t (bus.loadWait addr y).2).2 := by
  obtain ⟨hwait, hmem⟩ := hB.loadWait addr h
  exact ⟨hwait, hB.readWord addr hmem⟩

/-- A store. -/
theorem left_write (hB : Related bus P Q) (h : P t x y) (addr v : Word) (be : BitVec 4) :
    (bus.write addr v be t y).1 = (bus.write addr v be t x).1 ∧
      ∀ start cycles, start + cycles = t + (bus.write addr v be t x).1 + 2 ∨
          start + cycles = t + (bus.write addr v be t x).1 + 3 →
        Left P Q start cycles (bus.write addr v be t x).2 (bus.write addr v be t y).2 := by
  obtain ⟨hwait, hmem⟩ := hB.write addr v be h
  refine ⟨hwait, fun start cycles hcycles ↦ ?_⟩
  rcases hmem with hP | ⟨hzero, hQ⟩
  · exact .inl (hB.mono hP (by omega))
  · exact .inr ⟨t + 2, hQ, by omega, by omega⟩

/-- `exec_amo` of an instruction that reads and writes. -/
def rmw (bus : Bus σ) (s : Soc σ) (i : Word) (a : AmoOp) (r : Retire) : Soc σ × Retire :=
  let addr := s.regs (rs1 i)
  let (wait, mem) := bus.loadWait addr s.mem
  let (old, mem) := bus.readWord addr s.cycle mem
  let new := amoValue a old (s.regs (rs2 i))
  let (writeWait, mem) := bus.write addr new 0b1111#4 (s.cycle + (3 + wait)) mem
  writeRd { s with mem } (rd i) old
    { r with cycles := 3 + wait + (2 + writeWait), store := some (addr, new, 0b1111#4) }

theorem rmw_withMem (hB : Related bus P Q) (h : P s.cycle s.mem y) (i : Word) (a : AmoOp) :
    ∃ (s₁ : Soc σ) (v : Word) (r₁ : Retire) (y₁ : σ),
      (Sum.inr (s.rmw bus i a r) : Word ⊕ Soc σ × Retire) = .inr (s₁.writeRd (rd i) v r₁) ∧
      (Sum.inr ((s.withMem y).rmw bus i a r) : Word ⊕ Soc σ × Retire) =
        .inr ((s₁.withMem y₁).writeRd (rd i) v r₁) ∧
      s₁.cycle = s.cycle ∧ 2 ≤ r₁.cycles ∧ Left P Q s.cycle r₁.cycles s₁.mem y₁ := by
  have hregs : (s.withMem y).regs = s.regs := rfl
  have hcycle : (s.withMem y).cycle = s.cycle := rfl
  have hmem' : (s.withMem y).mem = y := rfl
  obtain ⟨hwait, hold, hmem⟩ := left_load hB h (s.regs (rs1 i))
  have hlater := hB.mono hmem
    (show s.cycle + 2 ≤ s.cycle + (3 + (bus.loadWait (s.regs (rs1 i)) s.mem).1) by omega)
  obtain ⟨hww, hleft⟩ := left_write hB hlater (s.regs (rs1 i))
    (amoValue a (bus.readWord (s.regs (rs1 i)) s.cycle (bus.loadWait (s.regs (rs1 i)) s.mem).2).1
      (s.regs (rs2 i))) 0b1111#4
  unfold rmw
  dsimp only
  rw [hregs, hcycle, hmem', hwait, hold, hww]
  refine ⟨_, _, _, _, rfl, rfl, rfl, ?_, hleft s.cycle _ (.inl ?_)⟩
  · dsimp only
    omega
  · have harith (t a b : ℕ) : t + (3 + a + (2 + b)) = t + (3 + a) + b + 2 := by omega
    exact harith _ _ _

/-- An A-extension instruction: its trap, or up to its write of `rd`. -/
theorem execAmo_withMem (hB : Related bus P Q) (h : P s.cycle s.mem y) (i : Word) :
    (∃ cause, s.execAmo bus i r = .inl cause ∧ (s.withMem y).execAmo bus i r = .inl cause) ∨
    ∃ (s₁ : Soc σ) (v : Word) (r₁ : Retire) (y₁ : σ),
      s.execAmo bus i r = .inr (s₁.writeRd (rd i) v r₁) ∧
      (s.withMem y).execAmo bus i r = .inr ((s₁.withMem y₁).writeRd (rd i) v r₁) ∧
      s₁.cycle = s.cycle ∧ 2 ≤ r₁.cycles ∧ Left P Q s.cycle r₁.cycles s₁.mem y₁ := by
  have hregs : (s.withMem y).regs = s.regs := rfl
  have hresv : (s.withMem y).reservation = s.reservation := rfl
  unfold execAmo
  dsimp only
  rw [hregs]
  split
  · exact .inl ⟨_, rfl, rfl⟩
  refine .inr ?_
  set addr := s.regs (rs1 i)
  rcases hop : amoOp i with _ | a
  · exact rmw_withMem hB h i .maxu
  · cases a with
    | sc =>
      by_cases hres : s.reservation = some addr
      · obtain ⟨hww, hleft⟩ := left_write hB h addr (s.regs (rs2 i)) 0b1111#4
        simp only [hresv, if_pos hres]
        refine ⟨{ s with reservation := none, mem := _ }, _, _, _, rfl, ?_, rfl, ?_,
          hleft _ _ (.inr ?_)⟩
        · change Sum.inr (writeRd { s.withMem y with reservation := none, mem := _ } _ _
            { r with cycles := 3 + (bus.write addr _ _ s.cycle y).1, store := _ }) = _
          rw [hww]
          rfl
        · change 2 ≤ 3 + _
          omega
        · change s.cycle + (3 + (bus.write addr (s.regs (rs2 i)) 0b1111#4 s.cycle s.mem).1) = _
          omega
      · simp only [hresv, if_neg hres]
        exact ⟨{ s with reservation := none }, _, _, y, rfl, rfl, rfl, le_rfl,
          .inl (hB.mono h (Nat.le_add_right _ _))⟩
    | lr =>
      obtain ⟨hwait, hold, hmem⟩ := left_load hB h addr
      refine ⟨{ s with reservation := some addr, mem := _ }, _, _, _, rfl, ?_, rfl, ?_,
        .inl (hB.mono hmem ?_)⟩
      · change Sum.inr (writeRd { s.withMem y with reservation := some addr, mem := _ } _
          (bus.readWord addr s.cycle (bus.loadWait addr y).2).1
          { r with cycles := 3 + (bus.loadWait addr y).1 }) = _
        rw [hwait, hold]
        rfl
      · change 2 ≤ 3 + _
        omega
      · change s.cycle + 2 ≤ s.cycle + (3 + _)
        omega
    | _ => exact rmw_withMem hB h i _

/-- An instruction that only writes `rd`. -/
theorem ends_write (hB : Related bus P Q) (h : P s.cycle s.mem y) (htwo : 2 ≤ r.cycles)
    (rd : BitVec 5) (v next : Word) :
    Ends P Q s.cycle ((s.writeRd rd v r).1.retire next true (s.writeRd rd v r).2)
      (((s.withMem y).writeRd rd v r).1.retire next true ((s.withMem y).writeRd rd v r).2) :=
  ends_writeRd (.inl (hB.mono h (Nat.le_add_right _ _))) rfl htwo rd v next true

/-- **An RV32 instruction does the same on related states.** -/
theorem ends_stepRv (hB : Related bus P Q) (h : P s.cycle s.mem y) (i : Word) (irq : Option Word) :
    Ends P Q s.cycle (s.stepRv bus i irq r) ((s.withMem y).stepRv bus i irq r) := by
  have hregs : (s.withMem y).regs = s.regs := rfl
  have hcsr : (s.withMem y).csr = s.csr := rfl
  have hext : (s.withMem y).mExt = s.mExt := rfl
  have hpc : (s.withMem y).pc = s.pc := rfl
  have hcycle : (s.withMem y).cycle = s.cycle := rfl
  have hmem : (s.withMem y).mem = y := rfl
  unfold stepRv
  cases irq with
  | some cause => exact ends_takeTrap hB h cause 0#32
  | none =>
    dsimp only
    rw [hregs, hcsr, hext, hpc]
    split
    · exact ends_takeTrap hB h 2#32 i
    cases hop : op i with
    | reg =>
      dsimp only
      split
      · exact ends_write hB h (show 2 ≤ 35 by omega) _ _ _
      · exact ends_write hB h le_rfl _ _ _
    | imm => exact ends_write hB h le_rfl _ _ _
    | lui => exact ends_write hB h le_rfl _ _ _
    | auipc => exact ends_write hB h le_rfl _ _ _
    | jal =>
      dsimp only
      split
      · exact ends_takeTrap hB h _ _
      · exact ends_write hB h le_rfl _ _ _
    | jalr =>
      dsimp only
      split
      · exact ends_takeTrap hB h _ _
      · exact ends_write hB h le_rfl _ _ _
    | branch =>
      dsimp only
      split
      · exact ends_takeTrap hB h _ _
      · exact ends_retire (.inl (hB.mono h (Nat.le_add_right _ _))) rfl le_rfl _ _
    | load =>
      dsimp only
      split
      · exact ends_takeTrap hB h _ _
      · obtain ⟨hwait, hword, hleft⟩ := left_load hB h (s.regs (rs1 i) + immI i)
        rw [hcycle, hmem, hwait, hword]
        exact ends_writeRd (s := { s with mem := _ }) (.inl (hB.mono hleft (by dsimp only; omega)))
          rfl (by dsimp only; omega) _ _ _ _
    | store =>
      dsimp only
      split
      · exact ends_takeTrap hB h _ _
      · obtain ⟨hwait, hleft⟩ := left_write hB h (s.regs (rs1 i) + immS i)
          (storeLanes (funct3 i) (s.regs (rs1 i) + immS i) (s.regs (rs2 i))).1
          (storeLanes (funct3 i) (s.regs (rs1 i) + immS i) (s.regs (rs2 i))).2
        have harith (t a : ℕ) : t + (3 + a) = t + a + 3 := by omega
        rw [hcycle, hmem, hwait]
        exact ends_retire (s := { s with mem := _ })
          (hleft s.cycle _ (.inr (harith _ _))) rfl (Nat.le_trans (by omega) (Nat.le_add_right 3 _))
          _ _
    | amo =>
      dsimp only
      rcases execAmo_withMem (r := { r with cycles := 2 }) hB h i with
        ⟨cause, hx, hy⟩ | ⟨s₁, v, r₁, y₁, hx, hy, hc, htwo, hleft⟩
      · rw [hx, hy]
        exact ends_takeTrap hB h _ _
      · rw [hx, hy]
        exact ends_writeRd hleft hc htwo _ _ _ _
    | fence => exact ends_retire (.inl (hB.mono h (Nat.le_add_right _ _))) rfl le_rfl _ _
    | system =>
      dsimp only
      split
      · split
        · exact ends_takeTrap hB h _ _
        split
        · exact ends_takeTrap hB h _ _
        split
        · exact ends_retire (s := { s with csr := s.csr.mret })
            (.inl (hB.mono h (Nat.le_add_right _ _))) rfl le_rfl _ _
        · exact ends_retire (.inl (hB.mono h (Nat.le_add_right _ _))) rfl le_rfl _ _
      · exact ends_execCsr hB h i _ le_rfl
    | other => exact ⟨rfl, rfl, le_rfl, .inl (hB.mono h (Nat.le_add_right _ _))⟩

/-- The read of M, if a Hack instruction has one. -/
theorem hackRead_if (hB : Related bus P Q) (h : P t x y) (c : Bool) (a : Word) :
    (if c = true then bus.hackRead a t y else ((a, 0), y)).1 =
        (if c = true then bus.hackRead a t x else ((a, 0), x)).1 ∧
      P (t + 2) (if c = true then bus.hackRead a t x else ((a, 0), x)).2
        (if c = true then bus.hackRead a t y else ((a, 0), y)).2 := by
  cases c with
  | true => exact hB.hackRead a h
  | false => exact ⟨rfl, hB.mono h (Nat.le_add_right _ _)⟩

/-- The write of M, if a Hack instruction has one, and the cycles left after it. -/
theorem left_hackWrite (hB : Related bus P Q) (h : P t x y) (c : Prop) [Decidable c] (a v : Word) :
    (if c then bus.hackWrite a v t y else (0, y)).1 =
        (if c then bus.hackWrite a v t x else (0, x)).1 ∧
      ∀ start cycles rest, start + cycles = t + (if c then bus.hackWrite a v t x else (0, x)).1 +
        rest →
        rest ≤ 3 →
        Left P Q start cycles (if c then bus.hackWrite a v t x else (0, x)).2
          (if c then bus.hackWrite a v t y else (0, y)).2 := by
  by_cases hc : c
  · simp only [if_pos hc]
    obtain ⟨hwait, hmem⟩ := hB.hackWrite a v h
    refine ⟨hwait, fun start cycles rest hcycles hrest ↦ ?_⟩
    rcases hmem with hP | ⟨hzero, hQ⟩
    · exact .inl (hB.mono hP (by omega))
    · exact .inr ⟨t, hQ, by omega, by omega⟩
  · simp only [if_neg hc]
    exact ⟨trivial, fun start cycles rest hcycles hrest ↦ .inl (hB.mono h (by omega))⟩

/-- A C-instruction after its read of M and its write. -/
def hackEnd (s : Soc σ) (word : Word) (r : Retire) (read : Word × ℕ) (write : ℕ × σ) :
    Soc σ × Retire :=
  let ins := hackIns s.pc word
  let a := s.regs 1#5
  let comp := ins >>> 6 &&& 0x3F#16
  let dest := ins >>> 3 &&& 7#16
  let jump := ins &&& 7#16
  let out := hackOut comp (s.regs 2#5) read.1
  let regs := if dest &&& 4#16 ≠ 0#16 then Function.update s.regs 1#5 out else s.regs
  let regs := if dest &&& 2#16 ≠ 0#16 then Function.update regs 2#5 out else regs
  let take := hackTake jump out
  ({ s with
      regs
      mem := write.2
      pc := if jump ≠ 0#16 && take then a <<< 1 else s.pc + 2#32 },
    { r with
      store := if dest &&& 1#16 ≠ 0#16 then some (a, out, 0b1111#4) else r.store
      rd := if dest &&& 4#16 ≠ 0#16 then some (1#5, out)
        else if dest &&& 2#16 ≠ 0#16 then some (2#5, out) else r.rd
      rd2 := if dest &&& 4#16 ≠ 0#16 && dest &&& 2#16 ≠ 0#16 then some (2#5, out) else r.rd2
      branchTaken := if jump ≠ 0#16 && jump ≠ 7#16 then some take else r.branchTaken
      cycles := 2 + (if hackUseMem ins then 2 + read.2 else 0) + write.1 +
        if dest &&& 6#16 = 6#16 then 1 else 0 })

/-- The read of M of `step_hack`. -/
def hackM (bus : Bus σ) (s : Soc σ) (word : Word) : (Word × ℕ) × σ :=
  if hackUseMem (hackIns s.pc word) then bus.hackRead (s.regs 1#5) s.cycle s.mem
  else ((s.regs 1#5, 0), s.mem)

/-- The edge of the write of M. -/
def hackEdge (s : Soc σ) (word : Word) (read : Word × ℕ) : ℕ :=
  if hackUseMem (hackIns s.pc word) then s.cycle + 3 + read.2 else s.cycle + 1

/-- The write of M of `step_hack`, after its read. -/
def hackStore (bus : Bus σ) (s : Soc σ) (word : Word) (m : (Word × ℕ) × σ) : ℕ × σ :=
  if hackIns s.pc word >>> 3 &&& 7#16 &&& 1#16 ≠ 0#16 then
    bus.hackWrite (s.regs 1#5) (hackOut (hackIns s.pc word >>> 6 &&& 0x3F#16) (s.regs 2#5) m.1.1)
      (s.hackEdge word m.1) m.2
  else (0, m.2)

theorem stepHack_eq (s : Soc σ) (word : Word) (r : Retire)
    (hins : ¬hackIns s.pc word &&& 0x8000#16 = 0#16) :
    s.stepHack bus word r = s.hackEnd word r (s.hackM bus word).1
      (s.hackStore bus word (s.hackM bus word)) := by
  unfold stepHack
  dsimp only
  rw [if_neg hins]
  rfl

/-- A C-instruction ends one or two cycles after its write. -/
theorem hackEnd_cycles (s : Soc σ) (word : Word) (r : Retire) (read : Word × ℕ) (write : ℕ × σ) :
    2 ≤ (s.hackEnd word r read write).2.cycles ∧ ∃ rest ≤ 3,
      s.cycle + (s.hackEnd word r read write).2.cycles = s.hackEdge word read + write.1 + rest := by
  unfold hackEnd hackEdge
  dsimp only
  refine ⟨by omega,
    1 + (if hackIns s.pc word >>> 3 &&& 7#16 &&& 6#16 = 6#16 then 1 else 0), ?_, ?_⟩
  all_goals
    split_ifs
    all_goals omega

/-- **A Hack instruction does the same on related states.** -/
theorem ends_stepHack (hB : Related bus P Q) (h : P s.cycle s.mem y) (word : Word) :
    Ends P Q s.cycle (s.stepHack bus word r) ((s.withMem y).stepHack bus word r) := by
  by_cases hins : hackIns s.pc word &&& 0x8000#16 = 0#16
  · unfold stepHack
    dsimp only
    rw [if_pos hins, if_pos (show hackIns (s.withMem y).pc word &&& 0x8000#16 = 0#16 from hins)]
    exact ⟨rfl, rfl, le_rfl, .inl (hB.mono h (Nat.le_add_right _ _))⟩
  · rw [stepHack_eq s word r hins, stepHack_eq (s.withMem y) word r hins]
    obtain ⟨hread, hmem⟩ := hackRead_if hB h (hackUseMem (hackIns s.pc word)) (s.regs 1#5)
    replace hread : ((s.withMem y).hackM bus word).1 = (s.hackM bus word).1 := hread
    replace hmem : P (s.cycle + 2) (s.hackM bus word).2 ((s.withMem y).hackM bus word).2 := hmem
    rw [hread]
    have hedge : P (s.hackEdge word (s.hackM bus word).1) (s.hackM bus word).2
        ((s.withMem y).hackM bus word).2 := by
      unfold hackEdge
      split
      case isTrue huse => exact hB.mono hmem (by omega)
      case isFalse huse =>
        have hsame (z : Soc σ) (hz : ¬hackUseMem (hackIns z.pc word) = true) :
            (z.hackM bus word).2 = z.mem := by rw [hackM, if_neg hz]
        rw [hsame s huse, hsame (s.withMem y) huse]
        exact hB.mono h (Nat.le_add_right _ _)
    obtain ⟨hwait, hleft⟩ := left_hackWrite hB hedge
      (hackIns s.pc word >>> 3 &&& 7#16 &&& 1#16 ≠ 0#16) (s.regs 1#5)
      (hackOut (hackIns s.pc word >>> 6 &&& 0x3F#16) (s.regs 2#5) (s.hackM bus word).1.1)
    have hm : (s.withMem y).hackM bus word =
        ((s.hackM bus word).1, ((s.withMem y).hackM bus word).2) := Prod.ext hread rfl
    have hstore : ((s.withMem y).hackStore bus word ((s.withMem y).hackM bus word)).1 =
        (s.hackStore bus word (s.hackM bus word)).1 := by
      rw [hm]
      exact hwait
    obtain ⟨htwo, rest, hrest, hcycles⟩ := hackEnd_cycles s word r (s.hackM bus word).1
      (s.hackStore bus word (s.hackM bus word))
    refine ⟨?_, rfl, htwo, ?_⟩
    · unfold hackEnd
      dsimp only
      rw [hstore]
      rfl
    · rw [hm]
      exact hleft s.cycle _ rest hcycles hrest

end

end Soc

end Vux9k.Emu
