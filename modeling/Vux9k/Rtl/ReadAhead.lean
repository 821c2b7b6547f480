import Vux9k.Rtl.Access
import Vux9k.Rtl.UartAccess

/-!
# Read-ahead

The instruction memories and the data side register their read address, so `unified_cpu` shows each
address a cycle early: `pc_out` is the address of the instruction that the next FETCH takes,
`data_addr` that of the access that the next cycle makes.  Both hold across the edge of any cycle
that is not in a soft reset; a soft reset lasts long enough for the CPU to be at address 0 before
its end.
-/

set_option autoImplicit false

namespace Vux9k.Rtl

namespace Cpu

/-! ## The instruction of each state -/

/-- What the state says about the instruction and its address. -/
structure Stages (s : Cpu) : Prop where
  muldiv : s.state = .muldivWait → opcode s.irReg = .rType
  amo : s.state = .amoCalc → opcode s.irReg = .amo
  wait : s.state = .memWait → s.dataWaddr = s.dataAddr

variable {s u : Cpu} {i : CpuIn}

theorem stages_of_state (hmul : s.state ≠ .muldivWait) (hamo : s.state ≠ .amoCalc)
    (hwait : s.state ≠ .memWait) : s.Stages :=
  ⟨fun h ↦ absurd h hmul, fun h ↦ absurd h hamo, fun h ↦ absurd h hwait⟩

theorem stages_of_fetch (hst : s.state = .fetch) : s.Stages :=
  stages_of_state (by simp [hst]) (by simp [hst]) (by simp [hst])

theorem stages_of_wait (hst : s.state = .memWait) (haddr : s.dataWaddr = s.dataAddr) : s.Stages :=
  ⟨by simp [hst], by simp [hst], fun _ ↦ haddr⟩

theorem stages_endInstr (s u : Cpu) : (s.endInstr u).Stages := by
  rcases state_endInstr s u with h | h
  · exact stages_of_fetch h
  · exact stages_of_state (by simp [h]) (by simp [h]) (by simp [h])

theorem dataWaddr_hack (hmode : s.isRiscvMode = false) : s.dataWaddr = s.dataAddr := by
  simp [dataWaddr, dataAddr, hmode]

theorem dataAddr_rv (hmode : s.isRiscvMode = true) : s.dataAddr = s.rvMemAddr := if_pos hmode

/-- An RV32 access that begins: its address is registered, and no register is written. -/
theorem stages_request (hmode : s.isRiscvMode = true) (hu : u.isRiscvMode = s.isRiscvMode)
    (hst : u.state = .memWait) (hir : u.irReg = s.irReg)
    (hregs : u.registers = (s.tickUnits i).registers) (haddr : u.rStoreAddr = s.rvMemAddr)
    (hwr : s.regWrite i = none) : u.Stages := by
  refine stages_of_wait hst ?_
  rw [dataAddr_of_regWrite hu hir hregs hwr, dataWaddr, if_pos (hu.trans hmode), haddr,
    dataAddr_rv hmode]

theorem regWrite_execute_store (hmode : s.isRiscvMode = true) (hs : s.state = .execute)
    (hop : opcode s.irReg = .store) : s.regWrite i = none := by
  refine regWrite_of_rv hmode ?_
  simp [rvWriteback, hs, hop]

theorem Stages.tick (h : s.Stages) (hr : s.Requests) (i : CpuIn) : (s.tick i).Stages := by
  by_cases hsoft : i.softRst = true
  · exact stages_of_fetch (state_of_softRst hsoft)
  rw [Bool.not_eq_true] at hsoft
  rw [tick_of_running hsoft]
  unfold tickState
  cases hs : s.state with
  | fetch =>
    dsimp only
    split
    · exact stages_of_state (by rintro ⟨⟩) (by rintro ⟨⟩) (by rintro ⟨⟩)
    · exact stages_of_fetch hs
  | execute =>
    dsimp only
    split_ifs with htrap hmul hfail hsc hld hst huse hstall
    · exact stages_of_fetch rfl
    · simp only [rvMuldiv, Bool.and_eq_true, decide_eq_true_eq] at hmul
      exact ⟨fun _ ↦ hmul.2.1, by rintro ⟨⟩, by rintro ⟨⟩⟩
    · exact stages_of_fetch rfl
    · simp only [Bool.and_eq_true, rvAmo, decide_eq_true_eq] at hsc
      have hfail' : s.rvScFailed = false := by simpa [hsc.1.1] using hfail
      exact stages_request hsc.1.1 rfl rfl rfl rfl rfl
        (regWrite_execute_load hsc.1.1 hs (.inr hsc.1.2) hfail')
    · simp only [Bool.and_eq_true, rvAmo, Bool.or_eq_true, decide_eq_true_eq] at hld
      have hfail' : s.rvScFailed = false := by simpa [hld.1] using hfail
      exact stages_request hld.1 rfl rfl rfl rfl rfl
        (regWrite_execute_load hld.1 hs hld.2 hfail')
    · simp only [Bool.and_eq_true, decide_eq_true_eq] at hst
      exact stages_request hst.1 rfl rfl rfl rfl rfl (regWrite_execute_store hst.1 hs hst.2)
    · simp only [Bool.and_eq_true, Bool.not_eq_true'] at huse
      exact stages_of_wait rfl (dataWaddr_hack huse.1)
    · exact stages_of_state (by change s.state ≠ _; simp [hs]) (by change s.state ≠ _; simp [hs])
        (by change s.state ≠ _; simp [hs])
    · exact stages_endInstr s _
  | memWait =>
    dsimp only
    split_ifs with hready hrmw hmode
    · simp only [rvAmoRmw, rvAmo, Bool.and_eq_true, decide_eq_true_eq] at hrmw
      exact ⟨by rintro ⟨⟩, fun _ ↦ hrmw.1.2.1.1, by rintro ⟨⟩⟩
    · exact stages_of_fetch rfl
    · exact stages_of_state (by rintro ⟨⟩) (by rintro ⟨⟩) (by rintro ⟨⟩)
    · refine stages_of_wait hs ?_
      have hsame := dataAddr_of_regWrite (s := s) (u := s.tickUnits i) rfl rfl rfl
        (regWrite_memWait (i := i) hs (by simpa using hready))
      rw [hsame, ← h.wait hs]
      cases hmode : s.isRiscvMode with
      | true => simp [dataWaddr, hmode, show (s.tickUnits i).isRiscvMode = true from hmode,
          show (s.tickUnits i).rStoreAddr = s.rStoreAddr from rfl]
      | false =>
        rw [dataWaddr_hack hmode, dataWaddr_hack (s := s.tickUnits i) hmode]
        exact hsame
  | hackWb =>
    dsimp only
    split
    · exact stages_of_state (by change s.state ≠ _; simp [hs]) (by change s.state ≠ _; simp [hs])
        (by change s.state ≠ _; simp [hs])
    · exact stages_endInstr s _
  | hackWrD => exact stages_of_fetch rfl
  | muldivWait =>
    dsimp only
    split
    · exact stages_of_fetch rfl
    · exact ⟨fun _ ↦ h.muldiv hs, by change s.state = _ → _; simp [hs],
        by change s.state = _ → _; simp [hs]⟩
  | amoCalc =>
    have hmode : s.isRiscvMode = true := by
      by_contra hm
      exact (hr.hack (by simpa using hm)).2.2.1 hs
    exact stages_request hmode rfl rfl rfl rfl rfl (regWrite_amoCalc hmode hs)

theorem Reachable.stages (h : Reachable s) : s.Stages := by
  induction h with
  | powerOn registers => exact stages_of_fetch rfl
  | tick i hs ih => exact ih.tick hs.requests i

/-! ## Across a clock edge -/

/-- **The address of the next instruction.**  An edge that ends in FETCH leaves in `pc_reg` what
`pc_out` showed before it. -/
theorem pcOut_of_fetch (h : s.Stages) (hr : s.Requests) (hsoft : i.softRst = false)
    (hf : (s.tick i).state = .fetch) : s.pcOut = (s.tick i).pcReg := by
  rw [tick_of_running hsoft] at hf ⊢
  unfold tickState at hf ⊢
  unfold pcOut
  cases hs : s.state with
  | fetch =>
    rw [hs] at hf
    dsimp only at hf ⊢
    split at hf
    · cases hf
    · rename_i hready
      rw [if_neg hready]
      rfl
  | execute =>
    rw [hs] at hf
    dsimp only at hf ⊢
    rw [if_neg (by decide)]
    split_ifs at hf ⊢ with htrap hmul hfail hsc hld hst huse hstall
    · rfl
    · rfl
    · exact absurd hf (by change s.state ≠ _; simp [hs])
    · rfl
  | memWait =>
    rw [hs] at hf
    dsimp only at hf ⊢
    rw [if_neg (by decide)]
    split_ifs at hf ⊢ with hready hrmw hmode
    · simp [nextPc, hmode, hs]
    · exact absurd hf (by change s.state ≠ _; simp [hs])
  | hackWb =>
    rw [hs] at hf
    dsimp only at hf ⊢
    rw [if_neg (by decide)]
    split at hf
    · exact absurd hf (by change s.state ≠ _; simp [hs])
    · rename_i hstall
      rw [if_neg hstall]
      rfl
  | hackWrD => rfl
  | muldivWait =>
    have hmode : s.isRiscvMode = true := by
      by_contra hm
      exact (hr.hack (by simpa using hm)).2.2.2 hs
    rw [hs] at hf
    dsimp only at hf ⊢
    rw [if_neg (by decide)]
    split at hf
    · rename_i hfin
      rw [if_pos hfin, nextPc, if_pos hmode, if_neg (by rw [hs]; decide),
        trap_of_state (by rw [hs]; decide), h.muldiv hs]
    · exact absurd hf (by change s.state ≠ _; simp [hs])
  | amoCalc =>
    rw [hs] at hf
    cases hf

/-- The address of a Hack access is A, which nothing has written. -/
theorem dataAddr_hack_of_regWrite {y : Cpu} (hmode : s.isRiscvMode = false)
    (hy : y.isRiscvMode = s.isRiscvMode) (hregs : y.registers = (s.tickUnits i).registers)
    (h : s.regWrite i = none) : s.dataAddr = y.dataWaddr := by
  have hreg := hregs.trans (tickUnits_registers h)
  simp [dataWaddr, dataAddr, hmode, hy, rs2Data, reg, hreg]

theorem dataReq_quiet (h : s.state = .fetch ∨ s.state = .hackWrD) : s.dataReq = false := by
  rcases h with h | h <;> cases hm : s.isRiscvMode <;> simp [dataReq, memWrite, h, hm]

theorem dataReq_rv (hmode : s.isRiscvMode = true) : s.dataReq = decide (s.state = .memWait) := by
  simp [dataReq, hmode]

/-- An RV32 access is one in MEM_WAIT, and registers its address on the way there. -/
theorem dataAddr_of_req_rv (h : s.Stages) (hmode : s.isRiscvMode = true)
    (hreq : (s.tickState i (s.tickUnits i)).state = .memWait) :
    s.dataAddr = (s.tickState i (s.tickUnits i)).rStoreAddr := by
  rw [dataAddr_rv hmode]
  unfold tickState at hreq ⊢
  cases hs : s.state with
  | fetch =>
    rw [hs] at hreq
    dsimp only at hreq
    split at hreq
    · cases hreq
    · exact absurd (hs.symm.trans hreq) (by simp)
  | execute =>
    rw [hs] at hreq
    dsimp only at hreq ⊢
    split_ifs at hreq ⊢ with htrap hmul hfail hsc hld hst huse hstall
    · rfl
    · rfl
    · rfl
    · simp [hmode] at huse
    · exact absurd (hs.symm.trans hreq) (by simp)
    · rcases state_endInstr s (s.tickUnits i) with hst | hst <;> rw [hst] at hreq <;> cases hreq
  | memWait =>
    rw [hs] at hreq
    dsimp only at hreq ⊢
    split_ifs at hreq ⊢ with hready
    have hwait := h.wait hs
    rw [dataAddr_rv hmode, dataWaddr, if_pos hmode] at hwait
    exact hwait.symm
  | hackWb =>
    rw [hs] at hreq
    dsimp only at hreq
    split at hreq
    · exact absurd (hs.symm.trans hreq) (by simp)
    · rcases state_endInstr s (s.tickUnits i) with hst | hst <;> rw [hst] at hreq <;> cases hreq
  | hackWrD =>
    rw [hs] at hreq
    cases hreq
  | muldivWait =>
    rw [hs] at hreq
    dsimp only at hreq
    split at hreq
    · cases hreq
    · exact absurd (hs.symm.trans hreq) (by simp)
  | amoCalc => rfl

/-- A Hack access is of A, which no cycle before it in the instruction writes. -/
theorem regWrite_of_req_hack (hr : s.Requests) (hmode : s.isRiscvMode = false)
    (hreq : (s.tickState i (s.tickUnits i)).dataReq = true) : s.regWrite i = none := by
  have htrap := trap_hack hmode
  unfold tickState at hreq
  cases hs : s.state with
  | fetch => exact regWrite_of_hack hmode (by simp [hs]) (.inl (by simp [hackWriteback, hs]))
  | execute =>
    refine regWrite_of_hack hmode (by simp [hs]) ?_
    rw [hs] at hreq
    simp only [htrap, hmode, ne_eq, not_true_eq_false, Bool.false_and, Bool.not_false,
      Bool.true_and,
      Bool.false_eq_true, if_false] at hreq
    split_ifs at hreq with huse hstall
    · exact .inl (by simp [hackWriteback, huse, hs])
    · exact .inr hstall
    · rw [dataReq_quiet (state_endInstr s _)] at hreq
      cases hreq
  | memWait => exact regWrite_of_hack hmode (by simp [hs]) (.inl (by simp [hackWriteback, hs]))
  | hackWb =>
    refine regWrite_of_hack hmode (by simp [hs]) (.inr ?_)
    rw [hs] at hreq
    dsimp only at hreq
    split at hreq
    · assumption
    · rw [dataReq_quiet (state_endInstr s _)] at hreq
      cases hreq
  | hackWrD =>
    rw [hs, dataReq_quiet (.inl rfl)] at hreq
    cases hreq
  | muldivWait => exact absurd hs (hr.hack hmode).2.2.2
  | amoCalc => exact absurd hs (hr.hack hmode).2.2.1

theorem tickState_registers (s u : Cpu) (i : CpuIn) :
    (s.tickState i u).registers = u.registers := by
  unfold tickState
  split <;> (try split_ifs) <;> rfl

/-- **The address of the next access.**  If an access is on the bus after an edge, `data_addr`
showed its address before. -/
theorem dataAddr_of_req (h : s.Stages) (hr : s.Requests) (hreq : (s.tick i).dataReq = true) :
    s.dataAddr = (s.tick i).dataWaddr := by
  have hsoft : i.softRst = false := by
    by_contra hsoft
    rw [dataReq_quiet (.inl (state_of_softRst (by simpa using hsoft)))] at hreq
    cases hreq
  rw [tick_of_running hsoft] at hreq ⊢
  have hkeep : (s.tickState i (s.tickUnits i)).isRiscvMode = s.isRiscvMode :=
    tickState_isRiscvMode s _ i
  cases hmode : s.isRiscvMode with
  | true =>
    rw [dataReq_rv (hkeep.trans hmode), decide_eq_true_eq] at hreq
    rw [dataAddr_of_req_rv h hmode hreq, dataWaddr, if_pos (hkeep.trans hmode)]
  | false =>
    exact dataAddr_hack_of_regWrite hmode hkeep (tickState_registers s _ i)
      (regWrite_of_req_hack hr hmode hreq)

end Cpu

end Vux9k.Rtl
