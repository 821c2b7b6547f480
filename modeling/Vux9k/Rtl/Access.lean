import Vux9k.Rtl.Run

/-!
# The data accesses of an instruction

An instruction reads data at most once and stores at most once, whatever waits lie in between, and
not at all if it traps.  What is still to come is a function of the state: `readTarget` is the
address of the read, `storeTarget` that of the store.  One clock edge either completes the access
(`mem_read_req`; `mem_write` with `data_ready`), and then nothing is left of it, or leaves its
address as it was.
-/

set_option autoImplicit false

namespace Vux9k.Rtl.Cpu

/-! ## What is still to come -/

section

variable (s : Cpu)

/-- In EXECUTE: the instruction reads data. -/
def dataRead : Bool :=
  s.trap = .none &&
    if s.isRiscvMode then opcode s.irReg = .load || (s.rvAmo && !s.amoIsSc) else s.hackOp.useMem

/-- In EXECUTE: the instruction stores. -/
def dataStore : Bool :=
  s.trap = .none &&
    if s.isRiscvMode then
      opcode s.irReg = .store || (s.rvAmo && !s.amoIsLr && (!s.amoIsSc || s.amoScOk))
    else s.hackOp.weMem

/-- Where the instruction has yet to read. -/
def readTarget : Option Word :=
  match s.state with
  | .execute => if s.dataRead then some s.dataAddr else none
  | .memWait => if !s.isRiscvMode || s.rLoadWe then some s.dataAddr else none
  | _ => none

/-- Where it has yet to store. -/
def storeTarget : Option Word :=
  match s.state with
  | .execute => if s.dataStore then some s.dataAddr else none
  | .memWait =>
    if s.isRiscvMode then
      if s.rStoreWe then some s.rStoreAddr
      else if s.rvAmoRmw && s.rLoadWe then some s.dataAddr
      else none
    else if s.rHackMemWe then some s.dataAddr
    else none
  | .amoCalc => some s.dataAddr
  | .hackWb => if s.rHackMemWe then some s.dataAddr else none
  | _ => none

/-- The request registers between two clock edges. -/
structure Requests : Prop where
  idle : s.state ≠ .memWait → s.rLoadWe = false ∧ s.rStoreWe = false
  wait : s.state = .memWait → s.isRiscvMode = true → s.rLoadWe = !s.rStoreWe
  hack : s.isRiscvMode = false → s.rLoadWe = false ∧ s.rStoreWe = false ∧ s.state ≠ .amoCalc ∧
    s.state ≠ .muldivWait
  riscv : s.isRiscvMode = true → s.state ≠ .hackWb ∧ s.state ≠ .hackWrD

end

variable {s u : Cpu} {i : CpuIn}

theorem tick_of_running (hsoft : i.softRst = false) : s.tick i = s.tickState i (s.tickUnits i) :=
  if_neg (by simp [hsoft])

/-- The address depends on the mode, the instruction and the registers only. -/
theorem dataAddr_congr (hmode : u.isRiscvMode = s.isRiscvMode) (hir : u.irReg = s.irReg)
    (hregs : u.registers = s.registers) : u.dataAddr = s.dataAddr := by
  simp only [dataAddr, rvMemAddr, rs1Data, rs2Data, reg, hmode, hir, hregs]

theorem tickUnits_registers (h : s.regWrite i = none) :
    (s.tickUnits i).registers = s.registers := by
  change writeReg s.registers (s.regWrite i) = _
  rw [h]
  rfl

theorem Requests.powerOn (registers : BitVec 5 → Word) : (Cpu.powerOn registers).Requests :=
  ⟨fun _ ↦ ⟨rfl, rfl⟩, nofun, nofun, fun _ ↦ ⟨nofun, nofun⟩⟩

theorem requests_resetState (u : Cpu) (riscv : Bool) : (u.resetState riscv).Requests :=
  ⟨fun _ ↦ ⟨rfl, rfl⟩, nofun, fun _ ↦ ⟨rfl, rfl, nofun, nofun⟩, fun _ ↦ ⟨nofun, nofun⟩⟩

/-- No access is on the bus. -/
theorem requests_of_idle (hst : u.state ≠ .memWait) (hload : u.rLoadWe = false)
    (hstore : u.rStoreWe = false)
    (hhack : u.isRiscvMode = false → u.state ≠ .amoCalc ∧ u.state ≠ .muldivWait)
    (hriscv : u.isRiscvMode = true → u.state ≠ .hackWb ∧ u.state ≠ .hackWrD) : u.Requests :=
  ⟨fun _ ↦ ⟨hload, hstore⟩, fun h ↦ absurd h hst, fun h ↦ ⟨hload, hstore, hhack h⟩, hriscv⟩

/-- Back to FETCH. -/
theorem requests_of_fetch (hst : u.state = .fetch) (hload : u.rLoadWe = false)
    (hstore : u.rStoreWe = false) : u.Requests :=
  requests_of_idle (by simp [hst]) hload hstore (by simp [hst]) (by simp [hst])

/-- An RV32 access. -/
theorem requests_of_wait (hst : u.state = .memWait) (hmode : u.isRiscvMode = true)
    (hwe : u.rLoadWe = !u.rStoreWe) : u.Requests :=
  ⟨fun h ↦ absurd hst h, fun _ _ ↦ hwe, fun h ↦ absurd (hmode.symm.trans h) nofun,
    fun _ ↦ by simp [hst]⟩

/-- The end of an instruction in EXECUTE or HACK_WB. -/
theorem requests_endInstr (s u : Cpu) (hmode : u.isRiscvMode = s.isRiscvMode) :
    (s.endInstr u).Requests := by
  have hdual : s.isRiscvMode = true → s.hackDualDest = false := by
    intro h
    simp [hackDualDest, h]
  refine requests_of_idle ?_ rfl rfl ?_ ?_
  · simp only [endInstr]
    split <;> rintro ⟨⟩
  · intro _
    simp only [endInstr]
    split <;> exact ⟨by rintro ⟨⟩, by rintro ⟨⟩⟩
  · intro h
    simp [endInstr, hdual (hmode.symm.trans h)]

theorem Requests.tick (h : s.Requests) (i : CpuIn) : (s.tick i).Requests := by
  by_cases hsoft : i.softRst = true
  · rw [Cpu.tick, if_pos hsoft]
    exact requests_resetState _ _
  rw [Bool.not_eq_true] at hsoft
  rw [tick_of_running hsoft]
  obtain ⟨hidle, hwait, hhack, hriscv⟩ := h
  have hsame : (s.tickUnits i).Requests := ⟨hidle, hwait, hhack, hriscv⟩
  unfold tickState
  cases hs : s.state with
  | fetch =>
    dsimp only
    split
    · exact requests_of_idle nofun rfl rfl (fun _ ↦ ⟨nofun, nofun⟩) fun _ ↦ ⟨nofun, nofun⟩
    · exact hsame
  | execute =>
    obtain ⟨hload, hstore⟩ := hidle (by simp [hs])
    dsimp only
    split_ifs with htrap hmul hfail hsc hld hst huse hstall
    · exact requests_of_fetch rfl rfl rfl
    · rw [Bool.and_eq_true] at hmul
      exact requests_of_idle nofun rfl rfl (fun hm ↦ absurd (hmul.1.symm.trans hm) nofun) fun _ ↦
        ⟨nofun, nofun⟩
    · exact requests_of_fetch rfl hload hstore
    · simp only [Bool.and_eq_true] at hsc
      exact requests_of_wait rfl hsc.1.1 rfl
    · rw [Bool.and_eq_true] at hld
      exact requests_of_wait rfl hld.1 rfl
    · rw [Bool.and_eq_true] at hst
      exact requests_of_wait rfl hst.1 rfl
    · simp only [Bool.and_eq_true, Bool.not_eq_true'] at huse
      exact ⟨nofun, fun _ hm ↦ absurd (huse.1.symm.trans hm) nofun,
        fun _ ↦ ⟨rfl, rfl, nofun, nofun⟩, fun _ ↦ ⟨nofun, nofun⟩⟩
    · exact hsame
    · exact requests_endInstr s _ rfl
  | memWait =>
    dsimp only
    split_ifs with hready hrmw hmode
    · simp only [Bool.and_eq_true] at hrmw
      exact requests_of_idle nofun rfl rfl (fun hm ↦ absurd (hrmw.1.1.symm.trans hm) nofun) fun _ ↦
        ⟨nofun, nofun⟩
    · exact requests_of_fetch rfl rfl rfl
    · exact requests_of_idle nofun rfl rfl (fun _ ↦ ⟨nofun, nofun⟩) fun hm ↦ absurd hm hmode
    · exact hsame
  | hackWb =>
    dsimp only
    split
    · exact hsame
    · exact requests_endInstr s _ rfl
  | hackWrD =>
    obtain ⟨hload, hstore⟩ := hidle (by simp [hs])
    exact requests_of_fetch rfl hload hstore
  | muldivWait =>
    obtain ⟨hload, hstore⟩ := hidle (by simp [hs])
    dsimp only
    split
    · exact requests_of_fetch rfl hload hstore
    · exact hsame
  | amoCalc =>
    obtain ⟨hload, -⟩ := hidle (by simp [hs])
    have hmode : s.isRiscvMode = true := by
      by_contra hm
      exact (hhack (by simpa using hm)).2.2.1 hs
    exact requests_of_wait rfl hmode hload

theorem Reachable.requests (h : Reachable s) : s.Requests := by
  induction h with
  | powerOn registers => exact .powerOn registers
  | tick i _ ih => exact ih.tick i

/-! ## Registers stay -/

theorem regWrite_of_rv (hmode : s.isRiscvMode = true) (h : s.rvWriteback i = none) :
    s.regWrite i = none := by
  rw [regWrite, if_pos hmode, h, ite_self]

theorem regWrite_of_hack (hmode : s.isRiscvMode = false) (hstate : s.state ≠ .hackWrD)
    (h : s.hackWriteback = false ∨ s.hackMemStall i = true) : s.regWrite i = none := by
  rw [regWrite, hmode, if_neg Bool.false_ne_true, hackRegWrite]
  rcases h with h | h <;> simp [h, hstate]

/-- A load or an AMO writes nothing in EXECUTE. -/
theorem regWrite_execute_load (hmode : s.isRiscvMode = true) (hs : s.state = .execute)
    (hop : opcode s.irReg = .load ∨ opcode s.irReg = .amo) (hfail : s.rvScFailed = false) :
    s.regWrite i = none := by
  refine regWrite_of_rv hmode ?_
  unfold rvWriteback
  rcases hop with hop | hop <;> simp [hs, hop, hfail]

/-- Nothing is written while the access waits. -/
theorem regWrite_memWait (hs : s.state = .memWait) (hready : i.dataReady = false) :
    s.regWrite i = none := by
  cases hmode : s.isRiscvMode with
  | true =>
    refine regWrite_of_rv hmode ?_
    simp [rvWriteback, hs, hready]
  | false =>
    refine regWrite_of_hack hmode (by simp [hs]) (.inl ?_)
    simp [hackWriteback, hs]

/-- Nor when the load of an AMO completes, nor a Hack read. -/
theorem regWrite_memWait_read (hs : s.state = .memWait)
    (h : s.isRiscvMode = false ∨ (s.rvAmoRmw = true ∧ s.rStoreWe = false)) :
    s.regWrite i = none := by
  cases hmode : s.isRiscvMode with
  | true =>
    obtain ⟨hrmw, hstore⟩ := h.resolve_left (by simp [hmode])
    refine regWrite_of_rv hmode ?_
    simp [rvWriteback, hs, hrmw, hstore]
  | false =>
    refine regWrite_of_hack hmode (by simp [hs]) (.inl ?_)
    simp [hackWriteback, hs]

theorem regWrite_amoCalc (hmode : s.isRiscvMode = true) (hs : s.state = .amoCalc) :
    s.regWrite i = none := by
  refine regWrite_of_rv hmode ?_
  simp [rvWriteback, hs]

/-! ## One clock edge -/

/-- The address is still the same after the edge. -/
theorem dataAddr_of_regWrite (hmode : u.isRiscvMode = s.isRiscvMode) (hir : u.irReg = s.irReg)
    (hregs : u.registers = (s.tickUnits i).registers) (h : s.regWrite i = none) :
    u.dataAddr = s.dataAddr :=
  dataAddr_congr hmode hir (hregs.trans (tickUnits_registers h))

theorem trap_hack (hmode : s.isRiscvMode = false) : s.trap = .none := by
  by_contra h
  exact absurd ((riscv_of_trap h).1.symm.trans hmode) nofun

theorem dataRead_rv (hmode : s.isRiscvMode = true) (ht : s.trap = .none) :
    s.dataRead = (opcode s.irReg = .load || (s.rvAmo && !s.amoIsSc)) := by
  simp [dataRead, hmode, ht]

theorem dataRead_hack (hmode : s.isRiscvMode = false) : s.dataRead = s.hackOp.useMem := by
  simp [dataRead, hmode, trap_hack hmode]

theorem dataStore_rv (hmode : s.isRiscvMode = true) (ht : s.trap = .none) :
    s.dataStore =
      (opcode s.irReg = .store || (s.rvAmo && !s.amoIsLr && (!s.amoIsSc || s.amoScOk))) := by
  simp [dataStore, hmode, ht]

theorem dataStore_hack (hmode : s.isRiscvMode = false) : s.dataStore = s.hackOp.weMem := by
  simp [dataStore, hmode, trap_hack hmode]

theorem readTarget_execute (hs : s.state = .execute) :
    s.readTarget = if s.dataRead then some s.dataAddr else none := by
  rw [readTarget, hs]

theorem storeTarget_execute (hs : s.state = .execute) :
    s.storeTarget = if s.dataStore then some s.dataAddr else none := by
  rw [storeTarget, hs]

theorem readTarget_endInstr (s u : Cpu) : (s.endInstr u).readTarget = none := by
  unfold readTarget
  cases h : s.hackDualDest <;> simp [endInstr, h]

theorem storeTarget_endInstr (s u : Cpu) : (s.endInstr u).storeTarget = none := by
  unfold storeTarget
  cases h : s.hackDualDest <;> simp [endInstr, h]

/-- What an edge does to the accesses that are still to come, from `s` to `y`. -/
structure AccessStep (i : CpuIn) (s y : Cpu) : Prop where
  read : s.memReadReq i = true → s.readTarget = some s.dataAddr ∧ y.readTarget = none
  noRead : s.memReadReq i = false → y.readTarget = s.readTarget
  store : (s.memWrite && i.dataReady) = true →
    s.storeTarget = some s.dataWaddr ∧ y.storeTarget = none
  noStore : (s.memWrite && i.dataReady) = false → y.storeTarget = s.storeTarget

/-- No access completes. -/
theorem accessStep_quiet {y : Cpu} (hread : s.memReadReq i = false)
    (hstore : (s.memWrite && i.dataReady) = false) (hr : y.readTarget = s.readTarget)
    (hst : y.storeTarget = s.storeTarget) : AccessStep i s y where
  read h := absurd (h.symm.trans hread) nofun
  noRead _ := hr
  store h := absurd (h.symm.trans hstore) nofun
  noStore _ := hst

/-- An RV32 instruction leaves EXECUTE with the accesses it came with. -/
theorem targets_execute_rv (hmode : s.isRiscvMode = true) (hs : s.state = .execute) :
    (s.tickState i (s.tickUnits i)).readTarget = s.readTarget ∧
      (s.tickState i (s.tickUnits i)).storeTarget = s.storeTarget := by
  obtain ⟨y, hy⟩ : ∃ y, s.tickState i (s.tickUnits i) = y := ⟨_, rfl⟩
  rw [hy, readTarget_execute hs, storeTarget_execute hs]
  unfold tickState at hy
  rw [hs] at hy
  dsimp only at hy
  by_cases htrap : s.trap = .none
  swap
  · rw [if_pos htrap] at hy
    subst hy
    simp [dataRead, dataStore, htrap, readTarget, storeTarget]
  rw [if_neg (not_not.mpr htrap), hmode] at hy
  rw [dataRead_rv hmode htrap, dataStore_rv hmode htrap]
  simp only [Bool.true_and, Bool.not_true, Bool.false_and, Bool.false_eq_true, if_false] at hy
  split_ifs at hy with hmul hfail hsc hld hst hstall
  · subst hy
    have hop : opcode s.irReg = .rType := by
      simp only [rvMuldiv, Bool.and_eq_true, decide_eq_true_eq] at hmul
      exact hmul.1
    simp [readTarget, storeTarget, rvAmo, hop]
  · subst hy
    simp only [rvScFailed, rvAmo, Bool.and_eq_true, Bool.not_eq_true', decide_eq_true_eq] at hfail
    simp [readTarget, storeTarget, rvAmo, hfail]
  · -- a store-conditional with its reservation
    simp only [rvAmo, Bool.and_eq_true, decide_eq_true_eq] at hsc
    have hok : s.amoScOk = true := by
      simpa [rvScFailed, rvAmo, hsc] using hfail
    have hlr : s.amoIsLr = false := by
      have hf5 := hsc.2
      simp only [amoIsSc, isSc, decide_eq_true_eq] at hf5
      simp [amoIsLr, isLr, hf5]
    have haddr : s.dataAddr = s.rvMemAddr := if_pos hmode
    subst hy
    have hu : (s.tickUnits i).isRiscvMode = true := hmode
    simp [readTarget, storeTarget, rvAmo, hsc, hok, hlr, quiet, haddr, hu]
  · -- a load, or the load of an AMO
    have hop : opcode s.irReg = .load ∨ opcode s.irReg = .amo := by
      simpa [rvAmo] using hld
    have haddr : y.dataAddr = s.dataAddr := by
      subst hy
      exact dataAddr_of_regWrite (i := i) rfl rfl rfl
        (regWrite_execute_load hmode hs hop (by simpa using hfail))
    have hread : (decide (opcode s.irReg = .load) || s.rvAmo && !s.amoIsSc) = true := by
      rcases hop with hop | hop
      · simp [hop]
      · simp only [rvAmo, hop, decide_true, Bool.true_and] at hsc ⊢
        simp [hsc]
    have hu : y.isRiscvMode = true := by
      subst hy
      exact hmode
    have hstate : y.state = .memWait := by rw [← hy]
    have hload : y.rLoadWe = true := by rw [← hy]
    have hstore : y.rStoreWe = false := by
      rw [← hy]
      rfl
    have hrmw : y.rvAmoRmw = s.rvAmoRmw := by
      subst hy
      rfl
    rw [if_pos hread, readTarget, storeTarget, hstate]
    dsimp only
    rw [hu, hload, hstore, hrmw, haddr]
    refine ⟨rfl, ?_⟩
    rcases hop with hop | hop
    · simp [rvAmoRmw, rvAmo, hop]
    · simp only [rvAmo, hop, decide_true, Bool.true_and, Bool.not_eq_true] at hsc
      simp [rvAmoRmw, rvAmo, hop, hsc]
  · have hop : opcode s.irReg = .store := by simpa using hst
    have haddr : s.dataAddr = s.rvMemAddr := if_pos hmode
    subst hy
    have hu : (s.tickUnits i).isRiscvMode = true := hmode
    simp [readTarget, storeTarget, rvAmo, hop, quiet, haddr, hu]
  · simp [hackMemStall, hmode] at hstall
  · have hop : ¬opcode s.irReg = .load ∧ s.rvAmo = false := by simpa using hld
    have hop' : ¬opcode s.irReg = .store := by simpa using hst
    subst hy
    rw [readTarget_endInstr, storeTarget_endInstr]
    simp [hop, hop']

theorem accessStep_rv (h : s.Requests) (hmode : s.isRiscvMode = true) (hs : s.state = .execute)
    (hsoft : i.softRst = false) : AccessStep i s (s.tick i) := by
  have hwrite : (s.memWrite && i.dataReady) = false := by
    rw [memWrite, if_pos hmode, (h.idle (by simp [hs])).2, Bool.false_and]
  have hreq : s.memReadReq i = false := by
    simp [memReadReq, hs]
  rw [tick_of_running hsoft]
  obtain ⟨hread, hstore⟩ := targets_execute_rv (i := i) hmode hs
  exact accessStep_quiet hreq hwrite hread hstore

/-- A Hack instruction in EXECUTE: it goes on to read M, or writes M (and may wait for that). -/
theorem accessStep_hack (hmode : s.isRiscvMode = false) (hs : s.state = .execute)
    (hsoft : i.softRst = false) : AccessStep i s (s.tick i) := by
  have hreq : s.memReadReq i = false := by
    simp [memReadReq, hs]
  have hmw : s.memWrite = (s.hackOp.weMem && !s.hackOp.useMem) := by
    simp [memWrite, hmode, hs]
  have hwaddr : s.dataWaddr = s.dataAddr := by
    simp [dataWaddr, dataAddr, hmode]
  have htrap := trap_hack hmode
  have hr := (readTarget_execute hs).trans (by rw [dataRead_hack hmode])
  have hst := (storeTarget_execute hs).trans (by rw [dataStore_hack hmode])
  rw [tick_of_running hsoft]
  obtain ⟨y, hy⟩ : ∃ y, s.tickState i (s.tickUnits i) = y := ⟨_, rfl⟩
  rw [hy]
  unfold tickState at hy
  rw [hs] at hy
  simp only [htrap, hmode, ne_eq, not_true_eq_false, if_false, Bool.false_and, Bool.false_eq_true,
    Bool.not_false, Bool.true_and] at hy
  split_ifs at hy with huse hstall
  · -- M is read first
    have haddr : y.dataAddr = s.dataAddr := by
      subst hy
      exact dataAddr_of_regWrite (i := i) rfl rfl rfl
        (regWrite_of_hack hmode (by simp [hs]) (.inl (by simp [hackWriteback, hs, huse])))
    have hu : y.isRiscvMode = false := by
      subst hy
      exact hmode
    have hstate : y.state = .memWait := by rw [← hy]
    have hwe : y.rHackMemWe = s.hackOp.weMem := by rw [← hy]
    refine accessStep_quiet hreq (by simp [hmw, huse]) ?_ ?_
    · rw [hr, readTarget, hstate]
      simp [hu, haddr, huse]
    · rw [hst, storeTarget, hstate]
      simp [hu, haddr, hwe]
  · -- the write of M waits
    have hwait : s.memWrite = true ∧ i.dataReady = false := by
      simpa [hackMemStall, hmode] using hstall
    have haddr : y.dataAddr = s.dataAddr := by
      subst hy
      exact dataAddr_of_regWrite (i := i) rfl rfl rfl
        (regWrite_of_hack hmode (by simp [hs]) (.inr hstall))
    have hu : y.isRiscvMode = false := by
      subst hy
      exact hmode
    have hstate : y.state = .execute := by
      subst hy
      exact hs
    have hop : y.hackOp = s.hackOp := by
      subst hy
      rfl
    refine accessStep_quiet hreq (by simp [hwait]) ?_ ?_
    · rw [hr, readTarget_execute hstate, dataRead_hack hu, hop, haddr]
    · rw [hst, storeTarget_execute hstate, dataStore_hack hu, hop, haddr]
  · have hnone : y.readTarget = none ∧ y.storeTarget = none := by
      subst hy
      exact ⟨readTarget_endInstr _ _, storeTarget_endInstr _ _⟩
    refine ⟨fun h ↦ absurd (h.symm.trans hreq) nofun, fun _ ↦ ?_, fun h ↦ ?_, fun h ↦ ?_⟩
    · rw [hnone.1, hr, if_neg huse]
    · rw [hmw, Bool.and_eq_true, Bool.and_eq_true] at h
      rw [hst, if_pos h.1.1, hwaddr]
      exact ⟨rfl, hnone.2⟩
    · have hwe : s.memWrite = false := by
        rw [Bool.not_eq_true, hackMemStall, hmode, Bool.not_false, Bool.true_and] at hstall
        cases hw : s.memWrite with
        | false => rfl
        | true => simp_all
      rw [hnone.2, hst, if_neg]
      simpa [hmw, huse] using hwe

/-- While the access waits, nothing changes. -/
theorem accessStep_wait (hs : s.state = .memWait) (hready : i.dataReady = false)
    (hsoft : i.softRst = false) : AccessStep i s (s.tick i) := by
  have hy : s.tick i = s.tickUnits i := by
    rw [tick_of_running hsoft, tickState, hs]
    simp [hready]
  have haddr : (s.tickUnits i).dataAddr = s.dataAddr :=
    dataAddr_of_regWrite (i := i) rfl rfl rfl (regWrite_memWait hs hready)
  have hstate : (s.tickUnits i).state = .memWait := hs
  rw [hy]
  refine accessStep_quiet (by simp [memReadReq, hready]) (by simp [hready]) ?_ ?_
  · rw [readTarget, readTarget, hstate, hs]
    dsimp only
    rw [haddr]
    rfl
  · rw [storeTarget, storeTarget, hstate, hs]
    dsimp only
    rw [haddr]
    rfl

/-- An RV32 access completes. -/
theorem accessStep_ready_rv (h : s.Requests) (hmode : s.isRiscvMode = true)
    (hs : s.state = .memWait) (hready : i.dataReady = true) (hsoft : i.softRst = false) :
    AccessStep i s (s.tick i) := by
  have hwe := h.wait hs hmode
  have hreq : s.memReadReq i = s.rLoadWe := by
    simp [memReadReq, hs, hready, hmode]
  have hmw : (s.memWrite && i.dataReady) = s.rStoreWe := by
    simp [memWrite, hmode, hready]
  have hr : s.readTarget = if s.rLoadWe then some s.dataAddr else none := by
    simp [readTarget, hs, hmode]
  have hst : s.storeTarget = if s.rStoreWe then some s.rStoreAddr
      else if s.rvAmoRmw && s.rLoadWe then some s.dataAddr else none := by
    simp [storeTarget, hs, hmode]
  have hwaddr : s.dataWaddr = s.rStoreAddr := if_pos hmode
  rw [tick_of_running hsoft]
  obtain ⟨y, hy⟩ : ∃ y, s.tickState i (s.tickUnits i) = y := ⟨_, rfl⟩
  rw [hy]
  unfold tickState at hy
  rw [hs] at hy
  simp only [hready, hmode, if_true, Bool.true_and] at hy
  cases hload : s.rLoadWe with
  | false =>
    have hstore : s.rStoreWe = true := by simpa [hload] using hwe
    rw [hload, Bool.and_false, if_neg Bool.false_ne_true] at hy
    subst hy
    refine ⟨fun hc ↦ ?_, fun _ ↦ ?_, fun _ ↦ ?_, fun hc ↦ ?_⟩
    · simp [hreq, hload] at hc
    · rw [hr, if_neg (by simp [hload])]
      rfl
    · rw [hst, if_pos hstore, hwaddr]
      exact ⟨rfl, rfl⟩
    · simp [hmw, hstore] at hc
  | true =>
    have hstore : s.rStoreWe = false := by simpa [hload] using hwe
    rw [hload, Bool.and_true] at hy
    refine ⟨fun _ ↦ ?_, fun hc ↦ ?_, fun hc ↦ ?_, fun _ ↦ ?_⟩
    · rw [hr, if_pos hload]
      refine ⟨rfl, ?_⟩
      split at hy <;> subst hy <;> rfl
    · simp [hreq, hload] at hc
    · simp [hmw, hstore] at hc
    · rw [hst, hstore, hload, Bool.and_true, if_neg Bool.false_ne_true]
      split at hy
      next hrmw =>
        have haddr : y.dataAddr = s.dataAddr := by
          subst hy
          exact dataAddr_of_regWrite (i := i) rfl rfl rfl
            (regWrite_memWait_read hs (.inr ⟨hrmw, hstore⟩))
        have hstate : y.state = .amoCalc := by rw [← hy]
        rw [if_pos hrmw, storeTarget, hstate]
        exact congrArg some haddr
      next hrmw =>
        rw [if_neg hrmw]
        subst hy
        rfl

/-- Hack's M has been read. -/
theorem accessStep_ready_hack (hmode : s.isRiscvMode = false) (hs : s.state = .memWait)
    (hready : i.dataReady = true) (hsoft : i.softRst = false) : AccessStep i s (s.tick i) := by
  have hreq : s.memReadReq i = true := by
    simp [memReadReq, hs, hready, hmode]
  have hmw : (s.memWrite && i.dataReady) = false := by
    simp [memWrite, hmode, hs]
  rw [tick_of_running hsoft]
  obtain ⟨y, hy⟩ : ∃ y, s.tickState i (s.tickUnits i) = y := ⟨_, rfl⟩
  rw [hy]
  unfold tickState at hy
  rw [hs] at hy
  simp only [hready, hmode, if_true, Bool.false_and, Bool.false_eq_true, if_false] at hy
  have haddr : y.dataAddr = s.dataAddr := by
    subst hy
    exact dataAddr_of_regWrite (i := i) rfl rfl rfl (regWrite_memWait_read hs (.inl hmode))
  have hstate : y.state = .hackWb := by rw [← hy]
  have hwe : y.rHackMemWe = s.rHackMemWe := by
    subst hy
    rfl
  refine ⟨fun _ ↦ ?_, fun hc ↦ absurd (hc.symm.trans hreq) nofun,
    fun hc ↦ absurd (hc.symm.trans hmw) nofun, fun _ ↦ ?_⟩
  · simp [readTarget, hs, hmode, hstate]
  · simp [storeTarget, hs, hmode, hstate, hwe, haddr]

/-- In HACK_WB: M is written, or nothing is left to do. -/
theorem accessStep_hackWb (h : s.Requests) (hs : s.state = .hackWb) (hsoft : i.softRst = false) :
    AccessStep i s (s.tick i) := by
  have hmode : s.isRiscvMode = false := by
    by_contra hm
    exact (h.riscv (by simpa using hm)).1 hs
  have hreq : s.memReadReq i = false := by
    simp [memReadReq, hs]
  have hmw : s.memWrite = s.rHackMemWe := by
    simp [memWrite, hmode, hs]
  have hwaddr : s.dataWaddr = s.dataAddr := by
    simp [dataWaddr, dataAddr, hmode]
  have hr : s.readTarget = none := by rw [readTarget, hs]
  have hst : s.storeTarget = if s.rHackMemWe then some s.dataAddr else none := by
    rw [storeTarget, hs]
  rw [tick_of_running hsoft]
  obtain ⟨y, hy⟩ : ∃ y, s.tickState i (s.tickUnits i) = y := ⟨_, rfl⟩
  rw [hy]
  unfold tickState at hy
  rw [hs] at hy
  dsimp only at hy
  split at hy
  next hstall =>
    have hwait : s.memWrite = true ∧ i.dataReady = false := by
      simpa [hackMemStall, hmode] using hstall
    have haddr : y.dataAddr = s.dataAddr := by
      subst hy
      exact dataAddr_of_regWrite (i := i) rfl rfl rfl
        (regWrite_of_hack hmode (by simp [hs]) (.inr hstall))
    have hstate : y.state = .hackWb := by
      subst hy
      exact hs
    have hwe : y.rHackMemWe = s.rHackMemWe := by
      subst hy
      rfl
    refine accessStep_quiet hreq (by simp [hwait]) ?_ ?_
    · rw [hr, readTarget, hstate]
    · rw [hst, storeTarget, hstate]
      simp [hwe, haddr]
  next hstall =>
    have hnone : y.readTarget = none ∧ y.storeTarget = none := by
      subst hy
      exact ⟨readTarget_endInstr _ _, storeTarget_endInstr _ _⟩
    refine ⟨fun hc ↦ absurd (hc.symm.trans hreq) nofun, fun _ ↦ hnone.1.trans hr.symm,
      fun hc ↦ ?_, fun hc ↦ ?_⟩
    · rw [Bool.and_eq_true, hmw] at hc
      rw [hst, if_pos hc.1, hwaddr]
      exact ⟨rfl, hnone.2⟩
    · have hwe : s.rHackMemWe = false := by
        rw [Bool.not_eq_true, hackMemStall, hmode, hmw, Bool.not_false, Bool.true_and] at hstall
        rw [hmw] at hc
        cases hw : s.rHackMemWe with
        | false => rfl
        | true => simp_all
      rw [hnone.2, hst, hwe, if_neg Bool.false_ne_true]

/-- In AMO_CALC. -/
theorem accessStep_amoCalc (h : s.Requests) (hs : s.state = .amoCalc) (hsoft : i.softRst = false) :
    AccessStep i s (s.tick i) := by
  have hmode : s.isRiscvMode = true := by
    by_contra hm
    exact (h.hack (by simpa using hm)).2.2.1 hs
  obtain ⟨hload, hstore⟩ := h.idle (by simp [hs])
  have haddr : s.dataAddr = s.rvMemAddr := if_pos hmode
  have hu : (s.tickUnits i).isRiscvMode = true := hmode
  have hl : (s.tickUnits i).rLoadWe = false := hload
  refine accessStep_quiet (by simp [memReadReq, hs]) (by simp [memWrite, hmode, hstore]) ?_ ?_
  all_goals
    rw [tick_of_running hsoft, tickState, hs]
    simp [readTarget, storeTarget, hs, hu, hl, haddr]

/-- **One clock edge of an instruction.** -/
theorem accessStep_tick (h : s.Requests) (hs : s.state ≠ .fetch) (hsoft : i.softRst = false) :
    AccessStep i s (s.tick i) := by
  cases hstate : s.state with
  | fetch => exact absurd hstate hs
  | execute =>
    cases hmode : s.isRiscvMode with
    | true => exact accessStep_rv h hmode hstate hsoft
    | false => exact accessStep_hack hmode hstate hsoft
  | memWait =>
    cases hready : i.dataReady with
    | false => exact accessStep_wait hstate hready hsoft
    | true =>
      cases hmode : s.isRiscvMode with
      | true => exact accessStep_ready_rv h hmode hstate hready hsoft
      | false => exact accessStep_ready_hack hmode hstate hready hsoft
  | hackWb => exact accessStep_hackWb h hstate hsoft
  | hackWrD =>
    obtain ⟨-, hstore⟩ := h.idle (by simp [hstate])
    refine accessStep_quiet (by simp [memReadReq, hstate]) ?_ ?_ ?_
    · simp [memWrite, hstate, hstore]
    all_goals
      rw [tick_of_running hsoft, tickState, hstate]
      simp [readTarget, storeTarget, hstate]
  | muldivWait =>
    obtain ⟨-, hstore⟩ := h.idle (by simp [hstate])
    have hunits : (s.tickUnits i).state = .muldivWait := hstate
    refine accessStep_quiet (by simp [memReadReq, hstate]) ?_ ?_ ?_
    · simp [memWrite, hstate, hstore]
    all_goals
      rw [tick_of_running hsoft, tickState, hstate]
      dsimp only
      split <;> simp [readTarget, storeTarget, hstate, hunits]
  | amoCalc => exact accessStep_amoCalc h hstate hsoft

/-! ## Consequences -/

theorem eq_dataAddr_of_readTarget {a : Word} (h : s.readTarget = some a) : a = s.dataAddr := by
  unfold readTarget at h
  split at h
  · split at h
    · exact (Option.some.inj h).symm
    · cases h
  · split at h
    · exact (Option.some.inj h).symm
    · cases h
  · cases h

theorem state_endInstr (s u : Cpu) :
    (s.endInstr u).state = .fetch ∨ (s.endInstr u).state = .hackWrD := by
  cases h : s.hackDualDest <;> simp [endInstr, h]

/-- A store ends the instruction, but for a Hack D. -/
theorem state_of_store (h : s.Requests) (hw : s.memWrite = true) (hready : i.dataReady = true) :
    (s.tick i).state = .fetch ∨ (s.tick i).state = .hackWrD := by
  by_cases hsoft : i.softRst = true
  · rw [Cpu.tick, if_pos hsoft]
    exact .inl rfl
  rw [tick_of_running (by simpa using hsoft)]
  cases hmode : s.isRiscvMode with
  | true =>
    rw [memWrite, if_pos hmode] at hw
    have hs : s.state = .memWait := by
      by_contra hne
      exact absurd ((h.idle hne).2.symm.trans hw) nofun
    have hload : s.rLoadWe = false := by simpa [hw] using h.wait hs hmode
    rw [tickState, hs]
    simp [hready, hmode, hload]
  | false =>
    have hstall : s.hackMemStall i = false := by simp [hackMemStall, hready]
    rw [memWrite, hmode, if_neg Bool.false_ne_true] at hw
    split at hw
    next hs =>
      rw [tickState, hs]
      simpa [hstall] using state_endInstr s _
    next hs =>
      rw [Bool.and_eq_true, Bool.not_eq_true'] at hw
      have htrap := trap_hack hmode
      rw [tickState, hs]
      simpa [htrap, hmode, hw.2, hstall] using state_endInstr s _
    · cases hw

/-- Without a soft reset the ISA stays. -/
theorem tick_isRiscvMode_of_running (hsoft : i.softRst = false) :
    (s.tick i).isRiscvMode = s.isRiscvMode := by
  rw [tick_of_running hsoft, tickState_isRiscvMode]
  rfl

/-- FETCH goes to EXECUTE or stays. -/
theorem state_of_fetch (hs : s.state = .fetch) :
    (s.tick i).state = .fetch ∨ (s.tick i).state = .execute := by
  by_cases hsoft : i.softRst = true
  · rw [Cpu.tick, if_pos hsoft]
    exact .inl rfl
  rw [tick_of_running (by simpa using hsoft), tickState, hs]
  dsimp only
  split
  · exact .inr rfl
  · exact .inl hs

theorem state_of_softRst (hsoft : i.softRst = true) : (s.tick i).state = .fetch := by
  rw [Cpu.tick, if_pos hsoft]
  rfl

end Vux9k.Rtl.Cpu
