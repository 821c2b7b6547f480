import Vux9k.Rtl.UartAccess
import Vux9k.Rtl.WindowTime

/-!
# The CPU's side of the window

The CPU presents an address to the window a cycle ahead, in FETCH's `pc_out` and the data access's
`data_addr`, holds the access until it is ready, and starts no data access in the cycle after a
store.  With the window wired to it as in `soc_top`, every run of the two keeps to the handshake.
-/

set_option autoImplicit false

namespace Vux9k.Rtl

namespace Cpu

/-! ## The address registers -/

/-- What the address registers hold between two clock edges. -/
structure Steady (s : Cpu) : Prop where
  requests : s.Requests
  muldiv : s.state = .muldivWait → opcode s.irReg = .rType
  addr : s.state = .memWait → s.isRiscvMode = true → s.rStoreAddr = s.rvMemAddr

variable {s u : Cpu} {i : CpuIn}

/-- A data access is on the bus in MEM_WAIT, and for Hack where it writes M. -/
theorem dataReq_iff : s.dataReq = true ↔
    s.state = .memWait ∨ (s.isRiscvMode = false ∧ s.memWrite = true) := by
  simp [dataReq]

theorem state_of_memWrite_hack (hmode : s.isRiscvMode = false) (hw : s.memWrite = true) :
    (s.state = .execute ∧ s.hackOp.weMem = true ∧ s.hackOp.useMem = false) ∨
      (s.state = .hackWb ∧ s.rHackMemWe = true) := by
  rw [memWrite, hmode, if_neg Bool.false_ne_true] at hw
  split at hw
  next hs => exact .inr ⟨hs, hw⟩
  next hs =>
    rw [Bool.and_eq_true, Bool.not_eq_true'] at hw
    exact .inl ⟨hs, hw⟩
  · exact absurd hw (by simp)

theorem regWrite_fetch (hs : s.state = .fetch) : s.regWrite i = none := by
  cases hmode : s.isRiscvMode with
  | true => exact regWrite_of_rv hmode (by simp [rvWriteback, hs])
  | false =>
    exact regWrite_of_hack hmode (by simp [hs]) (.inl (by simp [hackWriteback, hs]))

/-- What an edge without a register write does to the units. -/
theorem tickUnits_eq (h : s.regWrite i = none) : ∃ c v a m,
    s.tickUnits i = { s with csrs := c, resvValid := v, resvAddr := a, muldiv := m } := by
  refine ⟨(s.tickUnits i).csrs, (s.tickUnits i).resvValid, (s.tickUnits i).resvAddr,
    (s.tickUnits i).muldiv, ?_⟩
  rw [← tickUnits_registers h]
  rfl

/-- While an access waits the CPU holds it. -/
theorem tick_of_stall (hsoft : i.softRst = false)
    (h : (s.state = .fetch ∧ i.instrReady = false) ∨ (s.dataReq = true ∧ i.dataReady = false)) :
    ∃ c v a m, s.tick i = { s with csrs := c, resvValid := v, resvAddr := a, muldiv := m } := by
  rw [tick_of_running hsoft]
  rcases h with ⟨hs, hready⟩ | ⟨hreq, hready⟩
  · have ht : s.tickState i (s.tickUnits i) = s.tickUnits i := by
      rw [tickState, hs]
      simp [hready]
    rw [ht]
    exact tickUnits_eq (regWrite_fetch hs)
  rcases dataReq_iff.mp hreq with hs | ⟨hmode, hw⟩
  · have ht : s.tickState i (s.tickUnits i) = s.tickUnits i := by
      rw [tickState, hs]
      simp [hready]
    rw [ht]
    exact tickUnits_eq (regWrite_memWait hs hready)
  · have hstall : s.hackMemStall i = true := by simp [hackMemStall, hmode, hw, hready]
    have hne : s.state ≠ .hackWrD := by
      rcases state_of_memWrite_hack hmode hw with ⟨hs, -⟩ | ⟨hs, -⟩ <;> simp [hs]
    have ht : s.tickState i (s.tickUnits i) = s.tickUnits i := by
      rcases state_of_memWrite_hack hmode hw with ⟨hs, -, huse⟩ | ⟨hs, -⟩
      · rw [tickState, hs]
        simp [trap_hack hmode, hmode, huse, hstall]
      · rw [tickState, hs]
        simp [hstall]
    rw [ht]
    exact tickUnits_eq (regWrite_of_hack hmode hne (.inr hstall))

theorem Steady.powerOn (registers : BitVec 5 → Word) : (Cpu.powerOn registers).Steady :=
  ⟨.powerOn registers, nofun, nofun⟩

theorem tickState_irReg (hs : s.state ≠ .fetch) : (s.tickState i u).irReg = u.irReg := by
  unfold tickState
  cases hstate : s.state with
  | fetch => exact absurd hstate hs
  | execute =>
    dsimp only
    split_ifs <;> rfl
  | memWait =>
    dsimp only
    split_ifs <;> rfl
  | hackWb =>
    dsimp only
    split <;> rfl
  | hackWrD => rfl
  | muldivWait =>
    dsimp only
    split <;> rfl
  | amoCalc => rfl

/-- MULDIV_WAIT comes after the EXECUTE of a multiplication or division. -/
theorem state_muldivWait (hs : (s.tickState i (s.tickUnits i)).state = .muldivWait) :
    s.state = .muldivWait ∨ (s.state = .execute ∧ s.rvMuldiv = true) := by
  unfold tickState at hs
  cases hstate : s.state with
  | muldivWait => exact .inl rfl
  | execute =>
    rw [hstate] at hs
    dsimp only at hs
    have hend := state_endInstr s (s.tickUnits i)
    split_ifs at hs with htrap hmul hfail hsc hld hst huse hstall
    · rw [Bool.and_eq_true] at hmul
      exact .inr ⟨rfl, hmul.2⟩
    · exact absurd (hstate.symm.trans hs) nofun
    · rcases hend with he | he <;> exact absurd (he.symm.trans hs) nofun
  | fetch =>
    rw [hstate] at hs
    dsimp only at hs
    split at hs
    · exact absurd hs nofun
    · exact absurd (hstate.symm.trans hs) nofun
  | memWait =>
    rw [hstate] at hs
    dsimp only at hs
    split_ifs at hs
    exact absurd (hstate.symm.trans hs) nofun
  | hackWb =>
    rw [hstate] at hs
    dsimp only at hs
    split at hs
    · exact absurd (hstate.symm.trans hs) nofun
    · rcases state_endInstr s (s.tickUnits i) with he | he <;>
        exact absurd (he.symm.trans hs) nofun
  | hackWrD =>
    rw [hstate] at hs
    exact absurd hs nofun
  | amoCalc =>
    rw [hstate] at hs
    exact absurd hs nofun

/-- In MEM_WAIT an RV32 access is at the address that the instruction computes. -/
theorem addr_memWait (h : s.Steady) (hmode : s.isRiscvMode = true)
    (hs : (s.tickState i (s.tickUnits i)).state = .memWait) :
    (s.tickState i (s.tickUnits i)).rStoreAddr = s.rvMemAddr ∧
      (s.tickState i (s.tickUnits i)).registers = s.registers ∧ s.state ≠ .fetch := by
  obtain ⟨y, hy⟩ : ∃ y, s.tickState i (s.tickUnits i) = y := ⟨_, rfl⟩
  rw [hy] at hs ⊢
  unfold tickState at hy
  cases hstate : s.state with
  | execute =>
    rw [hstate] at hy
    dsimp only at hy
    simp only [hmode, Bool.true_and, Bool.not_true, Bool.false_and, Bool.false_eq_true,
      if_false] at hy
    have hend := state_endInstr s (s.tickUnits i)
    split_ifs at hy with htrap hmul hfail hsc hld hst hstall
    · exact absurd ((congrArg Cpu.state hy).trans hs) (by simp)
    · exact absurd ((congrArg Cpu.state hy).trans hs) (by simp)
    · exact absurd ((congrArg Cpu.state hy).trans hs) (by simp)
    · have hop : opcode s.irReg = .amo := by
        simp only [Bool.and_eq_true, rvAmo, decide_eq_true_eq] at hsc
        exact hsc.1
      have hreg := regWrite_execute_load (i := i) hmode hstate (.inr hop) (by simpa using hfail)
      subst hy
      exact ⟨rfl, tickUnits_registers hreg, by rintro ⟨⟩⟩
    · have hop : opcode s.irReg = .load ∨ opcode s.irReg = .amo := by
        simpa [rvAmo] using hld
      have hreg := regWrite_execute_load (i := i) hmode hstate hop (by simpa using hfail)
      subst hy
      exact ⟨rfl, tickUnits_registers hreg, by rintro ⟨⟩⟩
    · have hop : opcode s.irReg = .store := by simpa using hst
      have hreg : s.regWrite i = none :=
        regWrite_of_rv hmode (by simp [rvWriteback, hstate, hop])
      subst hy
      exact ⟨rfl, tickUnits_registers hreg, by rintro ⟨⟩⟩
    · subst hy
      exact absurd (hstate.symm.trans hs) (by simp)
    · subst hy
      rcases hend with he | he <;> exact absurd (he.symm.trans hs) (by simp)
  | memWait =>
    rw [hstate] at hy
    dsimp only at hy
    split_ifs at hy with hready hrmw
    · exact absurd ((congrArg Cpu.state hy).trans hs) (by simp)
    · exact absurd ((congrArg Cpu.state hy).trans hs) (by simp)
    · subst hy
      exact ⟨h.addr hstate hmode,
        tickUnits_registers (regWrite_memWait hstate (by simpa using hready)), by rintro ⟨⟩⟩
  | amoCalc =>
    rw [hstate] at hy
    subst hy
    exact ⟨rfl, tickUnits_registers (regWrite_amoCalc hmode hstate), by rintro ⟨⟩⟩
  | fetch =>
    rw [hstate] at hy
    dsimp only at hy
    split at hy
    · exact absurd ((congrArg Cpu.state hy).trans hs) (by simp)
    · subst hy
      exact absurd (hstate.symm.trans hs) (by simp)
  | hackWb => exact absurd hstate (h.requests.riscv hmode).1
  | hackWrD => exact absurd hstate (h.requests.riscv hmode).2
  | muldivWait =>
    rw [hstate] at hy
    dsimp only at hy
    split at hy
    · exact absurd ((congrArg Cpu.state hy).trans hs) (by simp)
    · subst hy
      exact absurd (hstate.symm.trans hs) (by simp)

theorem Steady.tick (h : s.Steady) (i : CpuIn) : (s.tick i).Steady := by
  refine ⟨h.requests.tick i, fun hs ↦ ?_, fun hs hmode ↦ ?_⟩
  · cases hsoft : i.softRst with
    | true => exact absurd ((state_of_softRst hsoft).symm.trans hs) (by simp)
    | false =>
      rw [tick_of_running hsoft] at hs ⊢
      rcases state_muldivWait hs with hm | ⟨he, hm⟩
      · rw [tickState_irReg (by simp [hm])]
        exact h.muldiv hm
      · rw [tickState_irReg (by simp [he])]
        simp only [rvMuldiv, Bool.and_eq_true, decide_eq_true_eq] at hm
        exact hm.1
  · cases hsoft : i.softRst with
    | true => exact absurd ((state_of_softRst hsoft).symm.trans hs) (by simp)
    | false =>
      rw [tick_isRiscvMode_of_running hsoft] at hmode
      rw [tick_of_running hsoft] at hs ⊢
      obtain ⟨haddr, hregs, hne⟩ := addr_memWait h hmode hs
      have hir := tickState_irReg (i := i) (u := s.tickUnits i) hne
      have hm : (s.tickState i (s.tickUnits i)).isRiscvMode = s.isRiscvMode := by
        rw [tickState_isRiscvMode]
        rfl
      rw [haddr]
      simp only [rvMemAddr, rs1Data, reg, hregs, hir, hm]
      rfl

/-! ## Addresses a cycle ahead -/

/-- FETCH is at the `pc_out` of the cycle before. -/
theorem pcReg_of_fetch (h : s.Steady) (hsoft : i.softRst = false)
    (hs : (s.tick i).state = .fetch) : (s.tick i).pcReg = s.pcOut := by
  have hout : s.state ≠ .fetch → s.state ≠ .hackWrD → s.pcOut = s.nextPc := by
    intro h1 h2
    simp [pcOut, h1, h2]
  rw [tick_of_running hsoft] at hs ⊢
  obtain ⟨y, hy⟩ : ∃ y, s.tickState i (s.tickUnits i) = y := ⟨_, rfl⟩
  rw [hy] at hs ⊢
  unfold tickState at hy
  cases hstate : s.state with
  | fetch =>
    rw [hstate] at hy
    dsimp only at hy
    split at hy
    · exact absurd ((congrArg Cpu.state hy).trans hs) nofun
    · subst hy
      simp [pcOut, hstate]
      rfl
  | execute =>
    rw [hout (by simp [hstate]) (by simp [hstate])]
    rw [hstate] at hy
    dsimp only at hy
    split_ifs at hy
    · rw [← hy]
    · exact absurd ((congrArg Cpu.state hy).trans hs) nofun
    · rw [← hy]
    · exact absurd ((congrArg Cpu.state hy).trans hs) nofun
    · exact absurd ((congrArg Cpu.state hy).trans hs) nofun
    · exact absurd ((congrArg Cpu.state hy).trans hs) nofun
    · exact absurd ((congrArg Cpu.state hy).trans hs) nofun
    · subst hy
      exact absurd (hstate.symm.trans hs) nofun
    · rw [← hy]
      rfl
  | memWait =>
    rw [hout (by simp [hstate]) (by simp [hstate])]
    rw [hstate] at hy
    dsimp only at hy
    split_ifs at hy with hready hrmw hmode
    · exact absurd ((congrArg Cpu.state hy).trans hs) nofun
    · rw [← hy, nextPc, if_pos hmode, if_pos hstate]
    · exact absurd ((congrArg Cpu.state hy).trans hs) nofun
    · subst hy
      exact absurd (hstate.symm.trans hs) nofun
  | hackWb =>
    rw [hout (by simp [hstate]) (by simp [hstate])]
    rw [hstate] at hy
    dsimp only at hy
    split at hy
    · subst hy
      exact absurd (hstate.symm.trans hs) nofun
    · rw [← hy]
      rfl
  | hackWrD =>
    rw [hstate] at hy
    subst hy
    simp [pcOut, hstate]
    rfl
  | muldivWait =>
    have hmode : s.isRiscvMode = true := by
      by_contra hm
      exact (h.requests.hack (by simpa using hm)).2.2.2 hstate
    rw [hout (by simp [hstate]) (by simp [hstate])]
    rw [hstate] at hy
    dsimp only at hy
    split at hy
    · have htrap : s.trap = .none := trap_of_state (by simp [hstate])
      rw [← hy, nextPc, if_pos hmode, if_neg (by simp [hstate]), htrap]
      simp [h.muldiv hstate]
    · subst hy
      exact absurd (hstate.symm.trans hs) nofun
  | amoCalc =>
    rw [hstate] at hy
    exact absurd ((congrArg Cpu.state hy).trans hs) nofun

/-- On the bus, the access is at `data_addr`. -/
theorem dataWaddr_of_dataReq (h : s.Steady) (hreq : s.dataReq = true) :
    s.dataWaddr = s.dataAddr := by
  cases hmode : s.isRiscvMode with
  | false => simp [dataWaddr, dataAddr, hmode]
  | true =>
    rcases dataReq_iff.mp hreq with hs | ⟨hm, -⟩
    · rw [dataWaddr, dataAddr, hmode, if_pos rfl, if_pos rfl, h.addr hs hmode]
    · exact absurd (hmode.symm.trans hm) (by simp)

theorem eq_dataAddr_of_storeTarget (h : s.Steady) {a : Word} (ha : s.storeTarget = some a) :
    a = s.dataAddr := by
  unfold storeTarget at ha
  cases hstate : s.state with
  | memWait =>
    rw [hstate] at ha
    dsimp only at ha
    split_ifs at ha with hmode hst hrmw hwe
    · rw [← Option.some.inj ha, h.addr hstate hmode, dataAddr, if_pos hmode]
    · exact (Option.some.inj ha).symm
    · exact (Option.some.inj ha).symm
  | execute =>
    rw [hstate] at ha
    dsimp only at ha
    split at ha
    · exact (Option.some.inj ha).symm
    · exact absurd ha (by simp)
  | amoCalc =>
    rw [hstate] at ha
    exact (Option.some.inj ha).symm
  | hackWb =>
    rw [hstate] at ha
    dsimp only at ha
    split at ha
    · exact (Option.some.inj ha).symm
    · exact absurd ha (by simp)
  | fetch =>
    rw [hstate] at ha
    exact absurd ha (by simp)
  | hackWrD =>
    rw [hstate] at ha
    exact absurd ha (by simp)
  | muldivWait =>
    rw [hstate] at ha
    exact absurd ha (by simp)

/-- An access on the bus is one that the instruction has yet to make. -/
theorem target_of_dataReq (h : s.Steady) (hreq : s.dataReq = true) :
    s.readTarget = some s.dataAddr ∨ s.storeTarget = some s.dataAddr := by
  rcases dataReq_iff.mp hreq with hs | ⟨hmode, hw⟩
  · cases hmode : s.isRiscvMode with
    | false =>
      left
      simp [readTarget, hs, hmode]
    | true =>
      cases hst : s.rStoreWe with
      | false =>
        left
        have hload : s.rLoadWe = true := by simpa [hst] using h.requests.wait hs hmode
        simp [readTarget, hs, hload]
      | true =>
        right
        have haddr : s.dataAddr = s.rStoreAddr := by
          rw [h.addr hs hmode, dataAddr, if_pos hmode]
        simp [storeTarget, hs, hmode, hst, haddr]
  · right
    rcases state_of_memWrite_hack hmode hw with ⟨hs, hwe, -⟩ | ⟨hs, hwe⟩
    · rw [storeTarget_execute hs, dataStore_hack hmode, if_pos hwe]
    · simp [storeTarget, hs, hwe]

/-- **The data address is presented a cycle ahead.** -/
theorem dataWaddr_ahead (h : s.Steady) (hsoft : i.softRst = false)
    (hreq : (s.tick i).dataReq = true) : (s.tick i).dataWaddr = s.dataAddr := by
  have h' := h.tick i
  rw [dataWaddr_of_dataReq h' hreq]
  by_cases hs : s.state = .fetch
  · have hmode : (s.tick i).isRiscvMode = s.isRiscvMode := tick_isRiscvMode_of_running hsoft
    have hst := state_of_fetch (i := i) hs
    rcases dataReq_iff.mp hreq with hm | ⟨hhack, -⟩
    · rcases hst with he | he <;> exact absurd (he.symm.trans hm) (by simp)
    · have hregs : (s.tick i).registers = s.registers := by
        rw [tick_of_running hsoft, tickState, hs]
        dsimp only
        split <;> exact tickUnits_registers (regWrite_fetch hs)
      rw [hmode] at hhack
      simp only [dataAddr, rs2Data, reg, hmode, hhack, hregs, Bool.false_eq_true, if_false]
  · have hstep := accessStep_tick h.requests hs hsoft
    rcases target_of_dataReq h' hreq with ht | ht
    · have hno : s.memReadReq i = false := by
        refine Bool.eq_false_of_not_eq_true fun hc ↦ ?_
        exact absurd (ht.symm.trans (hstep.read hc).2) (by simp)
      exact eq_dataAddr_of_readTarget ((hstep.noRead hno).symm.trans ht)
    · have hno : (s.memWrite && i.dataReady) = false := by
        refine Bool.eq_false_of_not_eq_true fun hc ↦ ?_
        exact absurd (ht.symm.trans (hstep.store hc).2) (by simp)
      exact eq_dataAddr_of_storeTarget h ((hstep.noStore hno).symm.trans ht)

/-- No data access follows a store at once. -/
theorem dataReq_after_store (h : s.Requests) (hw : s.memWrite = true)
    (hready : i.dataReady = true) : (s.tick i).dataReq = false := by
  have hst := state_of_store h hw hready
  refine Bool.eq_false_of_not_eq_true fun hreq ↦ ?_
  rcases dataReq_iff.mp hreq with hm | ⟨hmode, hw'⟩
  · rcases hst with he | he <;> exact absurd (he.symm.trans hm) nofun
  · rcases state_of_memWrite_hack hmode hw' with ⟨hs, -⟩ | ⟨hs, -⟩ <;>
      rcases hst with he | he <;> exact absurd (he.symm.trans hs) nofun

/-- FETCH makes no data access. -/
theorem dataReq_of_fetch (h : s.Requests) (hs : s.state = .fetch ∨ s.state = .hackWrD) :
    s.dataReq = false ∧ s.memWrite = false := by
  have hw : s.memWrite = false := by
    rw [memWrite]
    cases hmode : s.isRiscvMode with
    | true => rw [if_pos rfl, (h.idle (by rcases hs with hs | hs <;> simp [hs])).2]
    | false => rcases hs with hs | hs <;> simp [hs]
  refine ⟨?_, hw⟩
  rcases hs with hs | hs <;> simp [dataReq, hs, hw]

end Cpu

end Vux9k.Rtl
