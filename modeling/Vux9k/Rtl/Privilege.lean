import Vux9k.Rtl.Run

/-!
# U-mode

Between two traps a program in U-mode changes nothing of the machine's state: the counters count,
and that is all.  When it traps, the trap goes to `mtvec` and records where it came from.
-/

set_option autoImplicit false

namespace Vux9k.Rtl

/-! ## What is illegal in U-mode -/

theorem opcode_system {i : Word} (h : isEcall i = true ∨ isEbreak i = true ∨ isMret i = true ∨
    isWfi i = true) : opcode i = .system ∧ funct3 i = 0#3 ∧ csrWrites i = false := by
  unfold isEcall isEbreak isMret isWfi at h
  simp only [decide_eq_true_eq] at h
  rcases h with rfl | rfl | rfl | rfl <;> exact ⟨rfl, rfl, rfl⟩

/-- MRET is illegal in U-mode. -/
theorem isIllegal_mret {i : Word} {tw : Bool} (h : isMret i = true) :
    isIllegal i true tw = true := by
  obtain ⟨hop, hf3, -⟩ := opcode_system (.inr (.inr (.inl h)))
  rw [isIllegal, hop]
  simp [hf3, h]

/-- A SYSTEM instruction that is legal in U-mode writes no CSR. -/
theorem csrWrites_of_legal {i : Word} {tw : Bool} (hop : opcode i = .system)
    (h : isIllegal i true tw = false) : csrWrites i = false := by
  rw [isIllegal, hop] at h
  dsimp only at h
  by_cases hf3 : funct3 i = 0#3
  · rw [if_pos hf3, Bool.or_eq_false_iff, Bool.not_eq_false', Bool.or_eq_true, Bool.or_eq_true,
      Bool.or_eq_true] at h
    rcases h.1 with ((hecall | hebreak) | hmret) | hwfi
    · exact (opcode_system (.inl hecall)).2.2
    · exact (opcode_system (.inr (.inl hebreak))).2.2
    · exact (opcode_system (.inr (.inr (.inl hmret)))).2.2
    · exact (opcode_system (.inr (.inr (.inr hwfi)))).2.2
  · rw [if_neg hf3] at h
    simp at h

namespace Cpu

section

variable {s : Cpu}

/-- In U-mode there is no `trap_return`. -/
theorem trap_ne_return (hu : s.csrs.privU = true) : s.trap ≠ .return := by
  intro h
  rw [trap] at h
  split at h
  · rw [trapUnit, hu] at h
    split_ifs at h with _ hill _ _ _ _ hmret
    exact hill (isIllegal_mret hmret)
  · exact absurd h (by simp)

theorem trap_of_trapEntry (hu : s.csrs.privU = true) (h : s.trapEntry = false) :
    s.trap = .none := by
  cases ht : s.trap with
  | none => rfl
  | entry cause val =>
    rw [trapEntry, ht] at h
    exact absurd h (by simp)
  | «return» => exact absurd ht (trap_ne_return hu)

/-- An instruction that does not trap was legal. -/
theorem legal_of_trap (hexec : s.execRv = true) (h : s.trap = .none) :
    isIllegal s.irReg s.csrs.privU s.csrs.tw = false := by
  rw [trap, if_pos hexec, trapUnit] at h
  split_ifs at h with _ hill
  simpa using hill

/-- In U-mode no CSR is written. -/
theorem csrWr_none_of_user (hu : s.csrs.privU = true) (i : CpuIn) (h : s.trapEntry = false) :
    s.csrWr i = none := by
  rw [csrWr, if_neg]
  rw [Bool.and_eq_true, csrAccess, Bool.and_eq_true, Bool.and_eq_true]
  rintro ⟨⟨⟨hexec, hop⟩, -⟩, hwrites⟩
  have hlegal := legal_of_trap hexec (trap_of_trapEntry hu h)
  rw [hu] at hlegal
  rw [csrWrites_of_legal (of_decide_eq_true hop) hlegal] at hwrites
  exact absurd hwrites (by simp)

/-- **A cycle in U-mode without a trap**: the CSRs only count. -/
theorem tick_user (hu : s.csrs.privU = true) {i : CpuIn} (hsoft : i.softRst = false)
    (h : s.trapEntry = false) : (s.tick i).csrs = s.csrs.count none (s.rvRetire i) := by
  rw [tick_csrs]
  unfold tickUnits
  dsimp only
  rw [if_neg (by simp [hsoft]), trap_of_trapEntry hu h, csrWr_none_of_user hu i h]
  rfl

theorem tick_isRiscvMode {i : CpuIn} (hsoft : i.softRst = false) :
    (s.tick i).isRiscvMode = s.isRiscvMode := by
  rw [tick, if_neg (by simp [hsoft]), tickState_isRiscvMode]
  rfl

/-- A cycle with `trap_entry`. -/
theorem tick_trapEntry {i : CpuIn} (hsoft : i.softRst = false) (h : s.trapEntry = true) :
    (s.tick i).state = .fetch ∧ (s.tick i).pcReg = s.csrs.mtvec ∧ (s.tick i).csrs.mepc = s.pcReg ∧
      (s.tick i).csrs.mppU = s.csrs.privU ∧ (s.tick i).csrs.privU = false := by
  cases ht : s.trap with
  | none =>
    rw [trapEntry, ht] at h
    exact absurd h (by simp)
  | «return» =>
    rw [trapEntry, ht] at h
    exact absurd h (by simp)
  | entry cause val =>
    obtain ⟨hr, hs⟩ := riscv_of_trap (by simp [ht] : s.trap ≠ .none)
    have hnext : s.nextPc = s.csrs.mtvec := by
      rw [nextPc, if_pos hr, if_neg (by simp [hs]), ht]
    have hcsrs : (s.tick i).csrs =
        ((s.csrs.count ((s.csrWr i).map Prod.fst) (s.rvRetire i)).trapEntry s.pcReg cause val) := by
      rw [tick_csrs]
      unfold tickUnits
      dsimp only
      rw [if_neg (by simp [hsoft]), ht]
      rfl
    have htick : s.tick i =
        { (s.tickUnits i).quiet with pcReg := s.csrs.mtvec, state := .fetch } := by
      rw [tick, if_neg (by simp [hsoft]), tickState, hs]
      simp only [ht, hnext, ne_eq, reduceCtorEq, not_false_eq_true, if_true]
    refine ⟨by rw [htick], by rw [htick], ?_, ?_, ?_⟩ <;> rw [hcsrs] <;> rfl

/-- An RV32 instruction is in EXECUTE for one cycle, after the last of its FETCH. -/
theorem fetched_of_execute {i : CpuIn} (hr : s.isRiscvMode = true) (hsoft : i.softRst = false)
    (h : (s.tick i).state = .execute) :
    s.state = .fetch ∧ i.instrReady = true ∧ (s.tick i).irReg = i.instrIn ∧
      (s.tick i).pcReg = s.pcOut := by
  rw [tick, if_neg (by simp [hsoft])] at *
  have hdual : s.hackDualDest = false := by
    rw [hackDualDest, hr]
    rfl
  have hend : ∀ u, (s.endInstr u).state = .fetch := by
    intro u
    rw [endInstr, hdual, if_neg Bool.false_ne_true]
  have hstall : s.hackMemStall i = false := by
    rw [hackMemStall, hr]
    rfl
  unfold tickState at *
  cases hs : s.state with
  | fetch =>
    rw [hs] at h
    dsimp only at *
    by_cases hready : i.instrReady = true
    · rw [if_pos hready]
      refine ⟨rfl, hready, rfl, ?_⟩
      rw [pcOut, hs]
      rfl
    · rw [if_neg hready] at h
      exact absurd (h.symm.trans hs) (by simp)
  | execute =>
    rw [hs] at h
    simp only [hstall, Bool.false_eq_true, if_false] at h
    split_ifs at h
    exact absurd ((hend _).symm.trans h) (by simp)
  | memWait =>
    rw [hs] at h
    dsimp only at h
    split_ifs at h
    exact absurd (h.symm.trans hs) (by simp)
  | amoCalc =>
    rw [hs] at h
    exact absurd h (by simp)
  | hackWb =>
    rw [hs] at h
    dsimp only at h
    rw [hstall, if_neg Bool.false_ne_true] at h
    exact absurd ((hend _).symm.trans h) (by simp)
  | hackWrD =>
    rw [hs] at h
    exact absurd h (by simp)
  | muldivWait =>
    rw [hs] at h
    dsimp only at h
    split_ifs at h
    exact absurd (h.symm.trans hs) (by simp)

/-- The instructions that retire in the first `n` cycles. -/
def retired (inp : ℕ → CpuIn) (s : Cpu) : ℕ → ℕ
  | 0 => 0
  | n + 1 => retired inp s n + if (run inp s n).rvRetire (inp n) then 1 else 0

/-- **U-mode cannot touch the machine's state.**  In any run from an RV32 state in U-mode, with any
instructions and interrupts, up to the first trap or soft reset: the CSRs, MPP and the privilege
stay as they were but for the counters' counting.  The trap then goes to `mtvec`, with the address
that the instruction in EXECUTE was fetched from in `mepc` and U in MPP. -/
theorem user_keeps_machine_state {inp : ℕ → CpuIn} (hr : s.isRiscvMode = true)
    (hu : s.csrs.privU = true) {n : ℕ}
    (hquiet : ∀ k < n, (run inp s k).trapEntry = false ∧ (inp k).softRst = false) :
    (run inp s n).isRiscvMode = true ∧
      (run inp s n).csrs =
        { s.csrs with
          mcycle := s.csrs.mcycle + BitVec.ofNat 64 n
          minstret := s.csrs.minstret + BitVec.ofNat 64 (retired inp s n) } ∧
      ((inp n).softRst = false → (run inp s n).trapEntry = true →
        (run inp s (n + 1)).pcReg = s.csrs.mtvec ∧
          (run inp s (n + 1)).csrs.mepc = (run inp s n).pcReg ∧
          (run inp s (n + 1)).csrs.mppU = true ∧
          (run inp s (n + 1)).csrs.privU = false ∧
          ∀ m, n = m + 1 → (run inp s m).state = .fetch ∧ (inp m).instrReady = true ∧
            (run inp s n).irReg = (inp m).instrIn ∧ (run inp s n).pcReg = (run inp s m).pcOut) := by
  have hkeep : ∀ k ≤ n, (run inp s k).isRiscvMode = true ∧ (run inp s k).csrs =
      { s.csrs with
        mcycle := s.csrs.mcycle + BitVec.ofNat 64 k
        minstret := s.csrs.minstret + BitVec.ofNat 64 (retired inp s k) } := by
    intro k hk
    induction k with
    | zero =>
      refine ⟨hr, ?_⟩
      rw [run, retired, BitVec.add_zero, BitVec.add_zero]
    | succ k ih =>
      obtain ⟨ihr, ihc⟩ := ih (by omega)
      obtain ⟨hno, hsoft⟩ := hquiet k (by omega)
      have hpriv : (run inp s k).csrs.privU = true := by
        rw [ihc]
        exact hu
      refine ⟨by rw [run, tick_isRiscvMode hsoft, ihr], ?_⟩
      rw [run, tick_user hpriv hsoft hno, ihc, Csrs.count, retired]
      cases (run inp s k).rvRetire (inp k) <;>
        simp [BitVec.ofNat_add, BitVec.add_assoc]
  obtain ⟨hrn, hcn⟩ := hkeep n le_rfl
  refine ⟨hrn, hcn, ?_⟩
  intro hsoft hentry
  obtain ⟨-, hpc, hmepc, hmpp, hpriv⟩ := tick_trapEntry hsoft hentry
  rw [hcn] at hpc hmpp
  refine ⟨hpc, hmepc, hmpp.trans hu, hpriv, ?_⟩
  intro m hm
  subst hm
  have hexec : (run inp s (m + 1)).state = .execute := by
    refine (riscv_of_trap (s := run inp s (m + 1)) ?_).2
    intro hnone
    rw [trapEntry, hnone] at hentry
    exact absurd hentry (by simp)
  exact fetched_of_execute (hkeep m (by omega)).1 (hquiet m (by omega)).2 hexec

/-- `csrw mstatus, x0` (which sets MPP to U), `mret`, and then an `ecall`. -/
def toUser (k : ℕ) : CpuIn where
  softRst := false
  bootModeValid := false
  bootMode := false
  instrIn := if k < 2 then 0x30001073#32 else if k < 4 then 0x30200073#32 else 0x00000073#32
  instrReady := true
  dataIn := 0#32
  dataReady := true
  lines := ⟨false, false, false⟩
  mtime := 0#64

theorem user_ecall_keeps_machine_state :
    (run toUser (powerOn fun _ ↦ 0#32) 4).csrs.privU = true ∧
      (run (fun k ↦ toUser (4 + k)) (run toUser (powerOn fun _ ↦ 0#32) 4) 2).csrs.mppU = true := by
  have h := @user_keeps_machine_state (run toUser (powerOn fun _ ↦ 0#32) 4)
    (fun k ↦ toUser (4 + k)) (by decide) (by decide) 1 (by decide)
  exact ⟨by decide, (h.2.2 rfl (by decide)).2.2.1⟩

end

end Cpu

end Vux9k.Rtl
