import Vux9k.Lockstep.MulDiv
import Vux9k.Rtl.Run

/-!
# An instruction, from EXECUTE to the next FETCH

What `unified_cpu` does with each kind of instruction, over any number of wait cycles of the data
side: `Ends` says when the next FETCH comes, what is in the registers then, and which store was
requested.
-/

set_option autoImplicit false

namespace Vux9k.Rtl

/-- The counters after `n` cycles in which nothing retires. -/
def Csrs.elapse (c : Csrs) (n : ℕ) : Csrs := { c with mcycle := c.mcycle + BitVec.ofNat 64 n }

theorem Csrs.count_none (c : Csrs) (retire : Bool) : c.count none retire =
    { c.elapse 1 with minstret := c.minstret + (BitVec.ofBool retire).setWidth 64 } := by
  simp [count, elapse]

theorem Csrs.count_idle (c : Csrs) : c.count none false = c.elapse 1 := by
  rw [count_none]
  simp [elapse]

theorem Csrs.elapse_elapse (c : Csrs) (m n : ℕ) : (c.elapse m).elapse n = c.elapse (m + n) := by
  simp [elapse, BitVec.add_assoc, BitVec.ofNat_add]

namespace Cpu

/-- The reserved word. -/
def reservation (s : Cpu) : Option Word := if s.resvValid then some (s.resvAddr ++ 0#2) else none

/-! ## Cycles that wait -/

/-- The state after `n` cycles in which the instruction does not go on. -/
def idles (s : Cpu) (n : ℕ) : Cpu :=
  { s with csrs := s.csrs.elapse n, muldiv := MulDiv.tick^[n] s.muldiv }

theorem idles_zero (s : Cpu) : s.idles 0 = s := by
  simp [idles, Csrs.elapse]

theorem idles_idles (s : Cpu) (m n : ℕ) : (s.idles m).idles n = s.idles (m + n) := by
  simp only [idles, Csrs.elapse_elapse, ← Function.iterate_add_apply, Nat.add_comm n m]

theorem tickUnits_idle {s : Cpu} {i : CpuIn} (hr : s.isRiscvMode = true) (hs : s.state ≠ .execute)
    (hsoft : i.softRst = false) (hwb : s.rvWriteback i = none) (hret : s.rvRetire i = false) :
    s.tickUnits i = s.idles 1 := by
  have hexec : s.execRv = false := by
    rw [execRv, decide_eq_false hs, Bool.and_false]
  have htrap := trap_of_state hs
  have hentry : s.trapEntry = false := by
    rw [trapEntry, htrap]
  have hreg : s.regWrite i = none := by
    rw [regWrite, if_pos hr, hentry, if_neg Bool.false_ne_true, hwb]
  have hwr : s.csrWr i = none := by
    rw [csrWr, csrAccess, hexec, Bool.false_and, Bool.false_and, Bool.false_and,
      if_neg Bool.false_ne_true]
  unfold tickUnits
  simp only [hexec, hentry, hsoft, htrap, hret, hreg, hwr, Csrs.tick, Bool.false_and, Bool.or_false,
    if_false, Bool.false_eq_true, writeReg, Option.map_none, Csrs.count_idle]
  rfl

theorem tick_fetch_wait {s : Cpu} {i : CpuIn} (hr : s.isRiscvMode = true) (hs : s.state = .fetch)
    (hsoft : i.softRst = false) (hready : i.instrReady = false) : s.tick i = s.idles 1 := by
  rw [tick, if_neg (by simp [hsoft]), tickUnits_idle hr (by simp [hs]) hsoft
    (by simp [rvWriteback, hs]) (by simp [rvRetire, hs, execRv]), tickState, hs]
  simp only [hready, Bool.false_eq_true, if_false]

theorem tick_mem_wait {s : Cpu} {i : CpuIn} (hr : s.isRiscvMode = true) (hs : s.state = .memWait)
    (hsoft : i.softRst = false) (hready : i.dataReady = false) : s.tick i = s.idles 1 := by
  rw [tick, if_neg (by simp [hsoft]), tickUnits_idle hr (by simp [hs]) hsoft
    (by simp [rvWriteback, hs, hready]) (by simp [rvRetire, hs, hready, execRv]), tickState, hs]
  simp only [hready, Bool.false_eq_true, if_false]

theorem tick_muldiv_wait {s : Cpu} {i : CpuIn} (hr : s.isRiscvMode = true)
    (hs : s.state = .muldivWait) (hsoft : i.softRst = false) (hfin : s.muldiv.fin = false) :
    s.tick i = s.idles 1 := by
  rw [tick, if_neg (by simp [hsoft]), tickUnits_idle hr (by simp [hs]) hsoft
    (by simp [rvWriteback, hs, hfin]) (by simp [rvRetire, hs, hfin, execRv]), tickState, hs]
  simp only [hfin, Bool.false_eq_true, if_false]

/-- A run in which every cycle waits. -/
theorem run_idles {inp : ℕ → CpuIn} {s : Cpu} {n : ℕ}
    (h : ∀ k < n, (s.idles k).tick (inp k) = (s.idles k).idles 1) :
    ∀ k ≤ n, run inp s k = s.idles k := by
  intro k hk
  induction k with
  | zero => exact (idles_zero s).symm
  | succ k ih => rw [run, ih (by omega), h k (by omega), idles_idles]

/-! ## From EXECUTE on -/

/-- An RV32 instruction is in EXECUTE. -/
structure Executing (x : Cpu) : Prop where
  state : x.state = .execute
  riscv : x.isRiscvMode = true
  pcPlus4 : x.pcPlus4Reg = x.pcReg + 4#32

/-- From EXECUTE, the next FETCH comes after `n` cycles: it is that of the instruction at `pc`, `wr`
has been written to the register file, `store` has been requested and completed, and `w` of the
cycles were waits. -/
structure Ends (inp : ℕ → CpuIn) (x : Cpu) (n : ℕ) (wr : Option (BitVec 5 × Word)) (pc : Word)
    (csrs : Csrs) (resv : Option Word) (store : Option (Word × Word × BitVec 4)) (w : ℕ) :
    Prop where
  busy : ∀ k < n, (run inp x k).state ≠ .fetch
  state : (run inp x n).state = .fetch
  riscv : (run inp x n).isRiscvMode = true
  pc : (run inp x n).pcReg = pc
  registers : (run inp x n).registers = writeReg x.registers wr
  csrs : (run inp x n).csrs = csrs
  reservation : (run inp x n).reservation = resv
  stores : stores inp x n = store.toList
  waits : waits inp x n = w

section

variable {x : Cpu} {i : CpuIn}

theorem Executing.execRv (hx : x.Executing) : x.execRv = true := by
  rw [Cpu.execRv, hx.state, hx.riscv]
  rfl

theorem storeReq_of_state {s : Cpu} (hr : s.isRiscvMode = true) (hs : s.state ≠ .memWait) :
    s.storeReq = none := by
  simp [storeReq, dataReq, hr, hs]

theorem waiting_of_state {s : Cpu} (hr : s.isRiscvMode = true) (hs : s.state ≠ .memWait)
    (hf : s.state ≠ .fetch) : waiting i s = false := by
  simp [waiting, dataReq, hr, hs, hf]

theorem Executing.stores_one (hx : x.Executing) (inp : ℕ → CpuIn) : stores inp x 1 = [] := by
  simp [stores, run, storeReq_of_state hx.riscv (by simp [hx.state] : x.state ≠ .memWait)]

theorem Executing.waits_one (hx : x.Executing) (inp : ℕ → CpuIn) : waits inp x 1 = 0 := by
  simp [waits, run, waiting_of_state hx.riscv (by simp [hx.state] : x.state ≠ .memWait)
    (by simp [hx.state])]

/-- A one-cycle EXECUTE. -/
theorem Executing.ends_one (hx : x.Executing) {inp : ℕ → CpuIn} {r : Option (BitVec 5 × Word)}
    (hstate : (x.tick (inp 0)).state = .fetch) (hriscv : (x.tick (inp 0)).isRiscvMode = true)
    (hreg : (x.tick (inp 0)).registers = writeReg x.registers r) :
    Ends inp x 1 r (x.tick (inp 0)).pcReg (x.tick (inp 0)).csrs (x.tick (inp 0)).reservation none 0
    where
  busy := by
    intro k hk
    rw [Nat.lt_one_iff.mp hk, run, hx.state]
    nofun
  state := hstate
  riscv := hriscv
  pc := rfl
  registers := hreg
  csrs := rfl
  reservation := rfl
  stores := hx.stores_one inp
  waits := hx.waits_one inp

/-- What the units do in EXECUTE. -/
theorem Executing.tickUnits (hx : x.Executing) (hsoft : i.softRst = false)
    (ht : x.trapEntry = false) : x.tickUnits i =
    { x with
      registers := writeReg x.registers (x.rvWriteback i)
      csrs := x.csrs.tick x.trap x.pcReg (x.csrWr i) (!x.rvMemOp && !x.rvMuldiv)
      resvValid := if x.rvAmo && x.amoIsSc then false
        else if x.rvAmo && x.amoIsLr then true
        else x.resvValid
      resvAddr := if x.rvAmo && x.amoIsSc then x.resvAddr
        else if x.rvAmo && x.amoIsLr then x.rs1Data.extractLsb' 2 30
        else x.resvAddr
      muldiv := if x.rvMuldiv then .start (funct3 x.irReg) x.rs1Data x.rs2Data
        else x.muldiv.tick } := by
  have hreg : x.regWrite i = x.rvWriteback i := by
    rw [regWrite, if_pos hx.riscv, ht, if_neg Bool.false_ne_true]
  have hret : x.rvRetire i = (!x.rvMemOp && !x.rvMuldiv) := by
    rw [rvRetire, hx.execRv, ht, hx.state]
    simp
  unfold Cpu.tickUnits
  simp only [hx.execRv, hreg, hret, ht, hsoft, Bool.true_and, Bool.not_false, Bool.and_true,
    Bool.false_or, Bool.false_eq_true, if_false]

/-- A trap: nothing is written, and the next instruction is the handler's first. -/
theorem Executing.ends_trap (hx : x.Executing) {inp : ℕ → CpuIn} (hsoft : (inp 0).softRst = false)
    {cause val : Word} (ht : x.trap = .entry cause val) :
    Ends inp x 1 none x.csrs.mtvec ((x.csrs.elapse 1).trapEntry x.pcReg cause val) none none 0 := by
  have hentry : x.trapEntry = true := by
    rw [trapEntry, ht]
  have hreg : x.regWrite (inp 0) = none := by
    rw [regWrite, if_pos hx.riscv, if_pos hentry]
  have hwr : x.csrWr (inp 0) = none := by
    simp [csrWr, csrAccess, hentry]
  have hret : x.rvRetire (inp 0) = false := by
    simp [rvRetire, hentry, hx.state]
  have hnext : x.nextPc = x.csrs.mtvec := by
    rw [nextPc, if_pos hx.riscv, if_neg (by rw [hx.state]; nofun), ht]
  have htick : x.tick (inp 0) = { (x.tickUnits (inp 0)).quiet with
      pcReg := x.csrs.mtvec, state := .fetch } := by
    rw [tick, if_neg (by simp [hsoft]), tickState, hx.state]
    simp only [ht, hnext, ne_eq, reduceCtorEq, not_false_eq_true, if_true]
  have hends := hx.ends_one (r := none) (by rw [htick]) (by rw [htick]; exact hx.riscv)
    (by rw [htick]; simp only [quiet, Cpu.tickUnits, hreg])
  convert hends using 1
  · rw [htick]
  · rw [tick_csrs]
    simp only [Cpu.tickUnits, hsoft, hwr, hret, ht, Csrs.tick, Option.map_none, Csrs.count_idle,
      Bool.false_eq_true, if_false]
  · rw [htick]
    simp [reservation, quiet, Cpu.tickUnits, hentry]

theorem Executing.trapEntry_of_none (_ : x.Executing) (ht : x.trap = .none) :
    x.trapEntry = false := by
  rw [trapEntry, ht]

theorem Executing.nextPc_of_none (hx : x.Executing) (ht : x.trap = .none) : x.nextPc =
    match opcode x.irReg with
    | .branch => if branchTake (funct3 x.irReg) x.rs1Data x.rs2Data then x.pcReg + imm x.irReg
        else x.pcReg + 4#32
    | .jal => x.pcReg + imm x.irReg
    | .jalr => jalrTarget x.rvMemAddr
    | _ => x.pcReg + 4#32 := by
  rw [nextPc, if_pos hx.riscv, if_neg (by rw [hx.state]; nofun), ht]
  cases opcode x.irReg <;> simp only [hx.pcPlus4]

/-- An instruction that neither traps nor uses the data side nor multiplies or divides. -/
theorem Executing.ends_simple (hx : x.Executing) {inp : ℕ → CpuIn}
    (hsoft : (inp 0).softRst = false) (ht : x.trap = .none) (hmul : x.rvMuldiv = false)
    (hload : opcode x.irReg ≠ .load) (hstore : opcode x.irReg ≠ .store)
    (hamo : opcode x.irReg ≠ .amo) :
    Ends inp x 1 (x.rvWriteback (inp 0)) x.nextPc
      (x.csrs.tick .none x.pcReg (x.csrWr (inp 0)) true) x.reservation none 0 := by
  have hrvAmo : x.rvAmo = false := by
    rw [rvAmo, decide_eq_false hamo]
  have hmem : x.rvMemOp = false := by
    rw [rvMemOp, hrvAmo, decide_eq_false hload, decide_eq_false hstore]
    rfl
  have hunits := hx.tickUnits hsoft (hx.trapEntry_of_none ht)
  simp only [hrvAmo, hmem, hmul, ht, Bool.false_and, Bool.not_false, Bool.true_and, if_false,
    Bool.false_eq_true] at hunits
  have htick : x.tick (inp 0) = x.endInstr (x.tickUnits (inp 0)) := by
    have hsc : x.rvScFailed = false := by
      rw [rvScFailed, hrvAmo]
      rfl
    rw [tick, if_neg (by simp [hsoft]), tickState, hx.state]
    simp only [ht, hmul, hsc, hrvAmo, hload, hstore, hx.riscv, hackMemStall, ne_eq,
      not_true_eq_false, Bool.and_false, Bool.false_and, Bool.not_true, decide_false, Bool.or_false,
      Bool.false_eq_true, if_false]
  have hdual : x.hackDualDest = false := by
    rw [hackDualDest, hx.riscv]
    rfl
  have hends := hx.ends_one
    (by rw [htick, endInstr, hdual]; rfl) (by rw [htick, hunits]; exact hx.riscv)
    (by rw [htick, hunits]; rfl)
  rw [htick, hunits] at hends
  exact hends

/-- MRET. -/
theorem Executing.ends_return (hx : x.Executing) {inp : ℕ → CpuIn}
    (hsoft : (inp 0).softRst = false) (ht : x.trap = .return) (hop : opcode x.irReg = .system)
    (hf3 : funct3 x.irReg = 0#3) (hwr : x.csrWr (inp 0) = none) :
    Ends inp x 1 none x.csrs.mepc (x.csrs.count none true).trapReturn x.reservation none 0 := by
  have hentry : x.trapEntry = false := by
    rw [trapEntry, ht]
  have hrvAmo : x.rvAmo = false := by
    rw [rvAmo, hop]
    rfl
  have hmem : x.rvMemOp = false := by
    rw [rvMemOp, hrvAmo, hop]
    rfl
  have hmul : x.rvMuldiv = false := by
    rw [rvMuldiv, hop]
    rfl
  have hwb : x.rvWriteback (inp 0) = none := by
    simp [rvWriteback, hx.state, hop, hf3]
  have hunits := hx.tickUnits hsoft hentry
  simp only [hrvAmo, hmem, hmul, ht, hwb, hwr, Bool.false_and, Bool.not_false, Bool.true_and,
    if_false, Bool.false_eq_true] at hunits
  have hnext : x.nextPc = x.csrs.mepc := by
    rw [nextPc, if_pos hx.riscv, if_neg (by rw [hx.state]; nofun), ht]
  have htick : x.tick (inp 0) =
      { (x.tickUnits (inp 0)).quiet with pcReg := x.csrs.mepc, state := .fetch } := by
    rw [tick, if_neg (by simp [hsoft]), tickState, hx.state]
    simp only [ht, hnext, ne_eq, reduceCtorEq, not_false_eq_true, if_true]
  have hends := hx.ends_one (r := none) (by rw [htick])
    (by rw [htick, hunits]; exact hx.riscv) (by rw [htick, hunits]; rfl)
  rw [htick, hunits] at hends
  exact hends

/-- A store-conditional without its reservation. -/
theorem Executing.ends_scFailed (hx : x.Executing) {inp : ℕ → CpuIn}
    (hsoft : (inp 0).softRst = false) (ht : x.trap = .none) (hop : opcode x.irReg = .amo)
    (hsc : x.amoIsSc = true) (hok : x.amoScOk = false) :
    Ends inp x 1 (some (rd x.irReg, 1#32)) (x.pcReg + 4#32) (x.csrs.count none true) none none
      0 := by
  have hrvAmo : x.rvAmo = true := by
    rw [rvAmo, hop]
    rfl
  have hfail : x.rvScFailed = true := by
    rw [rvScFailed, hrvAmo, hsc, hok]
    rfl
  have hmem : x.rvMemOp = false := by
    rw [rvMemOp, hfail, hop]
    simp
  have hmul : x.rvMuldiv = false := by
    rw [rvMuldiv, hop]
    rfl
  have hwb : x.rvWriteback (inp 0) = some (rd x.irReg, 1#32) := by
    simp [rvWriteback, hx.state, hop, hfail]
  have hwr : x.csrWr (inp 0) = none := by
    simp [csrWr, csrAccess, hop]
  have hunits := hx.tickUnits hsoft (hx.trapEntry_of_none ht)
  simp only [hrvAmo, hmem, hmul, ht, hwb, hwr, hsc, Bool.true_and, Bool.not_false, if_true,
    if_false, Bool.false_eq_true] at hunits
  have hnext : x.nextPc = x.pcReg + 4#32 := by
    rw [hx.nextPc_of_none ht, hop]
  have htick : x.tick (inp 0) =
      { x.tickUnits (inp 0) with pcReg := x.pcReg + 4#32, state := .fetch } := by
    rw [tick, if_neg (by simp [hsoft]), tickState, hx.state]
    simp only [ht, hmul, hfail, hnext, hx.riscv, ne_eq, not_true_eq_false, Bool.and_false,
      Bool.true_and, Bool.false_eq_true, if_true, if_false]
  have hends := hx.ends_one (by rw [htick])
    (by rw [htick, hunits]; exact hx.riscv) (by rw [htick, hunits])
  rw [htick, hunits] at hends
  exact hends

/-! ### Data accesses -/

/-- The data side answers after `w` cycles. -/
structure Waits (inp : ℕ → CpuIn) (w : ℕ) : Prop where
  wait : ∀ k < w, (inp k).dataReady = false
  ready : (inp w).dataReady = true

/-- A MEM_WAIT up to its last cycle. -/
theorem run_memWait {inp : ℕ → CpuIn} {y : Cpu} {w : ℕ} (hw : Waits inp w)
    (hr : y.isRiscvMode = true) (hs : y.state = .memWait)
    (hsoft : ∀ k < w, (inp k).softRst = false) :
    ∀ k ≤ w, run inp y k = y.idles k :=
  run_idles fun k hk ↦ tick_mem_wait (s := y.idles k) hr hs (hsoft k hk) (hw.wait k hk)

theorem observe_memWait {inp : ℕ → CpuIn} {y : Cpu} {w : ℕ} (hw : Waits inp w)
    (hr : y.isRiscvMode = true) (hs : y.state = .memWait)
    (hsoft : ∀ k < w, (inp k).softRst = false) :
    stores inp y (w + 1) = y.storeReq.toList ∧ waits inp y (w + 1) = w := by
  have hrun := run_memWait hw hr hs hsoft
  have hwait : ∀ k ≤ w, stores inp y k = [] ∧ waits inp y k = k := by
    intro k hk
    induction k with
    | zero => exact ⟨rfl, rfl⟩
    | succ k ih =>
      obtain ⟨hst, hwt⟩ := ih (by omega)
      rw [stores, waits, hst, hwt, hrun k (by omega)]
      simp [hw.wait k (by omega), waiting, dataReq, idles, hs]
  obtain ⟨hst, hwt⟩ := hwait w le_rfl
  rw [stores, waits, hst, hwt, hrun w le_rfl, hw.ready]
  refine ⟨rfl, ?_⟩
  simp [waiting, hw.ready, idles, hs]

/-- The last cycle of an access that ends its instruction. -/
theorem tick_mem_done {y : Cpu} (hr : y.isRiscvMode = true) (hs : y.state = .memWait)
    (hsoft : i.softRst = false) (hready : i.dataReady = true)
    (hlast : (y.rvAmoRmw && y.rLoadWe) = false) : y.tick i =
    { y.quiet with
      registers := writeReg y.registers (y.rvWriteback i)
      csrs := y.csrs.count none true
      muldiv := y.muldiv.tick
      pcReg := y.pcPlus4Reg
      state := .fetch } := by
  have hexec : y.execRv = false := by
    rw [execRv, hs]
    simp
  have htrap := trap_of_state (by simp [hs] : y.state ≠ .execute)
  have hentry : y.trapEntry = false := by
    rw [trapEntry, htrap]
  have hreg : y.regWrite i = y.rvWriteback i := by
    rw [regWrite, if_pos hr, hentry, if_neg Bool.false_ne_true]
  have hwr : y.csrWr i = none := by
    simp [csrWr, csrAccess, hexec]
  have hret : y.rvRetire i = true := by
    simp [rvRetire, hexec, hr, hs, hready, hlast]
  rw [tick, if_neg (by simp [hsoft]), tickState, hs]
  simp only [hready, hr, hlast, Bool.true_and, Bool.false_eq_true, if_true, if_false]
  unfold Cpu.tickUnits
  simp only [hexec, hentry, hsoft, htrap, hret, hreg, hwr, Csrs.tick, Bool.false_and, Bool.or_false,
    if_false, Bool.false_eq_true, Option.map_none]
  rfl

/-- An access in MEM_WAIT that ends its instruction, after an EXECUTE that left the access in
`y`. -/
theorem Executing.ends_mem (hx : x.Executing) {inp : ℕ → CpuIn} {y : Cpu} {w : ℕ}
    (hy : x.tick (inp 0) = y) (hw : Waits (fun k ↦ inp (1 + k)) w)
    (hsoft : ∀ k < w + 2, (inp k).softRst = false)
    (hr : y.isRiscvMode = true) (hs : y.state = .memWait) (hregs : y.registers = x.registers)
    (hcsrs : y.csrs = x.csrs.elapse 1) (h4 : y.pcPlus4Reg = x.pcPlus4Reg)
    (hlast : (y.rvAmoRmw && y.rLoadWe) = false) {r : Option (BitVec 5 × Word)}
    (hwr : (y.idles w).rvWriteback (inp (1 + w)) = r) :
    Ends inp x (w + 2) r (x.pcReg + 4#32) ((x.csrs.elapse (w + 1)).count none true) y.reservation
      y.storeReq w := by
  have hsoft' : ∀ k < w, (inp (1 + k)).softRst = false := fun k hk ↦ hsoft _ (by omega)
  have hrun : ∀ k ≤ w, run inp x (1 + k) = y.idles k := by
    intro k hk
    rw [run_add, ← run_memWait hw hr hs hsoft' k hk, ← hy]
    rfl
  have hend : run inp x (w + 2) = (y.idles w).tick (inp (1 + w)) := by
    rw [show w + 2 = 1 + w + 1 by omega, run, hrun w le_rfl]
  rw [tick_mem_done (y := y.idles w) hr hs (hsoft _ (by omega)) hw.ready hlast, hwr] at hend
  obtain ⟨hst, hwt⟩ := observe_memWait hw hr hs hsoft'
  have hy' : run inp x 1 = y := hy
  constructor
  case busy =>
    intro k hk
    cases k with
    | zero =>
      rw [run, hx.state]
      nofun
    | succ k =>
      rw [Nat.add_comm k 1, hrun k (by omega)]
      change y.state ≠ _
      rw [hs]
      nofun
  case stores =>
    rw [show w + 2 = 1 + (w + 1) by omega, stores_add, hx.stores_one, hy', hst, List.nil_append]
  case waits =>
    rw [show w + 2 = 1 + (w + 1) by omega, waits_add, hx.waits_one, hy', hwt, Nat.zero_add]
  all_goals rw [hend]
  case riscv => exact hr
  case pc =>
    rw [← hx.pcPlus4, ← h4]
    rfl
  case registers =>
    rw [← hregs]
    rfl
  case csrs => rw [idles, hcsrs, Csrs.elapse_elapse, Nat.add_comm 1 w]
  case reservation => rfl

/-- The first MEM_WAIT of a load, an LR or an AMO in EXECUTE. -/
def loadWait (x : Cpu) : Cpu :=
  { x.quiet with
    rStoreAddr := x.rvMemAddr
    rLoadByteSel := x.memAddrLow
    rLoadF3 := funct3 x.irReg
    rLoadRd := rd x.irReg
    rLoadWe := true
    csrs := x.csrs.elapse 1
    resvValid := if x.rvAmo && x.amoIsLr then true else x.resvValid
    resvAddr := if x.rvAmo && x.amoIsLr then x.rs1Data.extractLsb' 2 30 else x.resvAddr
    muldiv := x.muldiv.tick
    state := .memWait }

/-- The first MEM_WAIT of a store or of a store-conditional in EXECUTE. -/
def storeWait (x : Cpu) : Cpu :=
  { x.quiet with
    rStoreAddr := x.rvMemAddr
    rStoreData := x.rDataOut
    rStoreByteWe := x.rMemByteWe
    rStoreWe := true
    csrs := x.csrs.elapse 1
    resvValid := if x.rvAmo then false else x.resvValid
    muldiv := x.muldiv.tick
    state := .memWait }

/-- The EXECUTE of a load, an LR or an AMO. -/
theorem Executing.tick_load (hx : x.Executing) (hsoft : i.softRst = false) (ht : x.trap = .none)
    (hop : opcode x.irReg = .load ∨ (opcode x.irReg = .amo ∧ x.amoIsSc = false)) :
    x.tick i = x.loadWait := by
  unfold loadWait
  have hfail : x.rvScFailed = false := by
    rcases hop with hop | ⟨hop, hsc⟩
    · simp [rvScFailed, rvAmo, hop]
    · simp [rvScFailed, hsc]
  have hsc : (x.rvAmo && x.amoIsSc) = false := by
    rcases hop with hop | ⟨hop, hsc⟩
    · simp [rvAmo, hop]
    · simp [hsc]
  have hload : (decide (opcode x.irReg = .load) || x.rvAmo) = true := by
    rcases hop with hop | ⟨hop, hsc⟩ <;> simp [rvAmo, hop]
  have hmem : x.rvMemOp = true := by
    rw [rvMemOp, hfail]
    rcases hop with hop | ⟨hop, hsc⟩ <;> simp [rvAmo, hop]
  have hmul : x.rvMuldiv = false := by
    rcases hop with hop | ⟨hop, hsc⟩ <;> simp [rvMuldiv, hop]
  have hwb : x.rvWriteback i = none := by
    rcases hop with hop | ⟨hop, -⟩ <;> simp [rvWriteback, hx.state, hop, hfail]
  have hwr : x.csrWr i = none := by
    rcases hop with hop | ⟨hop, -⟩ <;> simp [csrWr, csrAccess, hop]
  rw [tick, if_neg (by simp [hsoft]), tickState, hx.state]
  simp only [ht, hmul, hfail, hload, hx.riscv, hsc, ne_eq, not_true_eq_false, Bool.and_false,
    Bool.true_and, Bool.false_eq_true, if_true, if_false]
  rw [hx.tickUnits hsoft (hx.trapEntry_of_none ht)]
  simp only [hmem, hmul, hsc, hwb, hwr, ht, Csrs.tick, Option.map_none, Csrs.count_idle, writeReg,
    Bool.not_true, Bool.false_and, Bool.false_eq_true, if_false, hx.riscv]
  simp only [quiet, hx.riscv]

/-- The EXECUTE of a store or of a store-conditional with its reservation. -/
theorem Executing.tick_store (hx : x.Executing) (hsoft : i.softRst = false) (ht : x.trap = .none)
    (hop : opcode x.irReg = .store ∨
      (opcode x.irReg = .amo ∧ x.amoIsSc = true ∧ x.amoScOk = true)) : x.tick i = x.storeWait := by
  unfold storeWait
  have hfail : x.rvScFailed = false := by
    rcases hop with hop | ⟨hop, hsc, hok⟩
    · simp [rvScFailed, rvAmo, hop]
    · simp [rvScFailed, hok]
  have hamo : (x.rvAmo && x.amoIsSc) = x.rvAmo := by
    rcases hop with hop | ⟨hop, hsc, hok⟩
    · simp [rvAmo, hop]
    · simp [hsc]
  have hlr : (x.rvAmo && x.amoIsLr) = false := by
    rcases hop with hop | ⟨hop, hsc, hok⟩
    · simp [rvAmo, hop]
    · simp only [amoIsSc, isSc, decide_eq_true_eq] at hsc
      simp [amoIsLr, isLr, hsc]
  have hmem : x.rvMemOp = true := by
    rw [rvMemOp, hfail]
    rcases hop with hop | ⟨hop, -⟩ <;> simp [rvAmo, hop]
  have hmul : x.rvMuldiv = false := by
    rcases hop with hop | ⟨hop, -⟩ <;> simp [rvMuldiv, hop]
  have hwb : x.rvWriteback i = none := by
    rcases hop with hop | ⟨hop, -⟩ <;> simp [rvWriteback, hx.state, hop, hfail]
  have hwr : x.csrWr i = none := by
    rcases hop with hop | ⟨hop, -⟩ <;> simp [csrWr, csrAccess, hop]
  have hstore : x.rvAmo = false → opcode x.irReg = .store := by
    intro h
    rcases hop with hop | ⟨hop, -⟩
    · exact hop
    · rw [rvAmo, hop] at h
      exact absurd h (by decide)
  rw [tick, if_neg (by simp [hsoft]), tickState, hx.state,
    hx.tickUnits hsoft (hx.trapEntry_of_none ht)]
  cases hc : x.rvAmo with
  | false =>
    simp only [ht, hmul, hmem, hfail, hstore hc, hwb, hwr, hx.riscv, quiet, Csrs.tick,
      Option.map_none, Csrs.count_idle, writeReg, ne_eq, not_true_eq_false, Bool.and_false,
      Bool.not_true, Bool.false_and, Bool.or_false, decide_false, decide_true, Bool.true_and,
      Bool.false_eq_true, if_true, if_false, reduceCtorEq]
  | true =>
    rw [hc, Bool.true_and] at hamo
    simp only [ht, hmul, hmem, hfail, hamo, hwb, hwr, hx.riscv, quiet, Csrs.tick,
      Option.map_none, Csrs.count_idle, writeReg, ne_eq, not_true_eq_false, Bool.and_false,
      Bool.not_true, Bool.false_and, Bool.true_and, Bool.and_true, Bool.false_eq_true, if_true,
      if_false]

theorem rvWriteback_load {y : Cpu} (hs : y.state = .memWait) (hwe : y.rLoadWe = true)
    (hready : i.dataReady = true) (hrmw : y.rvAmoRmw = false) :
    y.rvWriteback i = some (y.rLoadRd, loadVal y.rLoadF3 y.rLoadByteSel i.dataIn) := by
  simp [rvWriteback, hs, hwe, hready, hrmw]

theorem rvWriteback_store {y : Cpu} (hs : y.state = .memWait) (hload : y.rLoadWe = false)
    (hwe : y.rStoreWe = true) (hready : i.dataReady = true) : y.rvWriteback i =
    if y.rvAmo then some (rd y.irReg, if y.amoIsSc then 0#32 else y.rMemData) else none := by
  simp [rvWriteback, hs, hload, hwe, hready]

theorem storeReq_load {y : Cpu} (hr : y.isRiscvMode = true) (hwe : y.rStoreWe = false) :
    y.storeReq = none := by
  simp [storeReq, memWrite, hr, hwe]

theorem storeReq_store {y : Cpu} (hr : y.isRiscvMode = true) (hwe : y.rStoreWe = true)
    (hs : y.state = .memWait) :
    y.storeReq = some (y.rStoreAddr, y.rStoreData, y.rStoreByteWe) := by
  simp [storeReq, memWrite, dataReq, dataWaddr, dataOut, memByteWe, hr, hwe, hs]

/-- A load or an LR. -/
theorem Executing.ends_load (hx : x.Executing) {inp : ℕ → CpuIn} {w : ℕ} (ht : x.trap = .none)
    (hop : opcode x.irReg = .load ∨ (opcode x.irReg = .amo ∧ x.amoIsLr = true))
    (hw : Waits (fun k ↦ inp (1 + k)) w) (hsoft : ∀ k < w + 2, (inp k).softRst = false) :
    Ends inp x (w + 2)
      (some (rd x.irReg, loadVal (funct3 x.irReg) x.memAddrLow (inp (1 + w)).dataIn))
      (x.pcReg + 4#32) ((x.csrs.elapse (w + 1)).count none true)
      (if opcode x.irReg = .load then x.reservation else some (x.rs1Data.extractLsb' 2 30 ++ 0#2))
      none w := by
  have hsc : opcode x.irReg = .load ∨ (opcode x.irReg = .amo ∧ x.amoIsSc = false) := by
    rcases hop with hop | ⟨hop, hlr⟩
    · exact .inl hop
    · simp only [amoIsLr, isLr, decide_eq_true_eq] at hlr
      exact .inr ⟨hop, by simp [amoIsSc, isSc, hlr]⟩
  have hrmw : x.rvAmoRmw = false := by
    rcases hop with hop | ⟨hop, hlr⟩
    · simp [rvAmoRmw, rvAmo, hop]
    · simp [rvAmoRmw, hlr]
  have hends := hx.ends_mem (hx.tick_load (hsoft 0 (by omega)) ht hsc) hw hsoft hx.riscv rfl rfl rfl
    rfl (by rw [Bool.and_eq_false_iff]; exact .inl hrmw)
    (r := some (rd x.irReg, loadVal (funct3 x.irReg) x.memAddrLow (inp (1 + w)).dataIn))
    (rvWriteback_load rfl rfl hw.ready hrmw)
  convert hends using 1
  · rcases hop with hop | ⟨hop, hlr⟩
    · simp [hop, reservation, loadWait, rvAmo]
    · simp [hop, reservation, loadWait, rvAmo, hlr]
  · exact (storeReq_load (y := x.loadWait) hx.riscv rfl).symm

/-- A store, or a store-conditional with its reservation. -/
theorem Executing.ends_store (hx : x.Executing) {inp : ℕ → CpuIn} {w : ℕ} (ht : x.trap = .none)
    (hop : opcode x.irReg = .store ∨
      (opcode x.irReg = .amo ∧ x.amoIsSc = true ∧ x.amoScOk = true))
    (hw : Waits (fun k ↦ inp (1 + k)) w) (hsoft : ∀ k < w + 2, (inp k).softRst = false) :
    Ends inp x (w + 2) (if opcode x.irReg = .store then none else some (rd x.irReg, 0#32))
      (x.pcReg + 4#32) ((x.csrs.elapse (w + 1)).count none true)
      (if opcode x.irReg = .store then x.reservation else none)
      (some (x.rvMemAddr, x.rDataOut, x.rMemByteWe)) w := by
  have hends :=
    hx.ends_mem (hx.tick_store (hsoft 0 (by omega)) ht hop) hw hsoft hx.riscv rfl rfl rfl
    rfl (by rw [Bool.and_eq_false_iff]; exact .inr rfl)
    (r := if opcode x.irReg = .store then none else some (rd x.irReg, 0#32))
    (by
      refine (rvWriteback_store rfl rfl rfl hw.ready).trans ?_
      rcases hop with hop | ⟨hop, hsc, -⟩
      · have hamo : (x.storeWait.idles w).rvAmo = false := by
          change decide (opcode x.irReg = .amo) = false
          simp [hop]
        rw [if_pos hop, hamo, if_neg Bool.false_ne_true]
      · have hamo : (x.storeWait.idles w).rvAmo = true := decide_eq_true hop
        have hsc' : (x.storeWait.idles w).amoIsSc = true := hsc
        rw [if_pos hamo, if_pos hsc', if_neg (by simp [hop])]
        rfl)
  convert hends using 1
  · rcases hop with hop | ⟨hop, -, -⟩ <;> simp [hop, reservation, storeWait, rvAmo, quiet]
  · exact (storeReq_store (y := x.storeWait) hx.riscv rfl rfl).symm

/-- The first MULDIV_WAIT. -/
def muldivStarted (x : Cpu) : Cpu :=
  { x.quiet with
    csrs := x.csrs.elapse 1
    muldiv := .start (funct3 x.irReg) x.rs1Data x.rs2Data
    state := .muldivWait }

theorem Executing.tick_muldiv (hx : x.Executing) (hsoft : i.softRst = false) (ht : x.trap = .none)
    (hmul : x.rvMuldiv = true) : x.tick i = x.muldivStarted := by
  have hop : opcode x.irReg = .rType := by
    rw [rvMuldiv, Bool.and_eq_true] at hmul
    exact of_decide_eq_true hmul.1
  have hrvAmo : x.rvAmo = false := by
    simp [rvAmo, hop]
  have hmem : x.rvMemOp = false := by
    simp [rvMemOp, hrvAmo, hop]
  have hwb : x.rvWriteback i = none := by
    simp [rvWriteback, hx.state, hop, hmul]
  have hwr : x.csrWr i = none := by
    simp [csrWr, csrAccess, hop]
  rw [tick, if_neg (by simp [hsoft]), tickState, hx.state,
    hx.tickUnits hsoft (hx.trapEntry_of_none ht), muldivStarted]
  simp only [ht, hmul, hmem, hrvAmo, hwb, hwr, hx.riscv, quiet, Csrs.tick, Option.map_none,
    Csrs.count_idle, writeReg, ne_eq, not_true_eq_false, Bool.and_false, Bool.not_true,
    Bool.false_and, Bool.true_and, Bool.false_eq_true, if_true, if_false]

theorem tick_muldiv_done {y : Cpu} (hr : y.isRiscvMode = true) (hs : y.state = .muldivWait)
    (hsoft : i.softRst = false) (hfin : y.muldiv.fin = true) : y.tick i =
    { y with
      registers := writeReg y.registers (some (rd y.irReg, y.muldiv.result))
      csrs := y.csrs.count none true
      muldiv := y.muldiv.tick
      pcReg := y.pcPlus4Reg
      state := .fetch } := by
  have hexec : y.execRv = false := by
    simp [execRv, hs]
  have htrap := trap_of_state (by simp [hs] : y.state ≠ .execute)
  have hentry : y.trapEntry = false := by
    rw [trapEntry, htrap]
  have hreg : y.regWrite i = some (rd y.irReg, y.muldiv.result) := by
    simp [regWrite, hr, hentry, rvWriteback, hs, hfin]
  have hwr : y.csrWr i = none := by
    simp [csrWr, csrAccess, hexec]
  have hret : y.rvRetire i = true := by
    simp [rvRetire, hs, hfin]
  rw [tick, if_neg (by simp [hsoft]), tickState, hs]
  simp only [hfin, if_true]
  unfold Cpu.tickUnits
  simp only [hexec, hentry, hsoft, htrap, hret, hreg, hwr, Csrs.tick, Bool.false_and, Bool.or_false,
    if_false, Bool.false_eq_true, Option.map_none]

/-- RV32M: 33 cycles of MULDIV_WAIT. -/
theorem Executing.ends_muldiv (hx : x.Executing) {inp : ℕ → CpuIn} (ht : x.trap = .none)
    (hmul : x.rvMuldiv = true) (hsoft : ∀ k < 34, (inp k).softRst = false) :
    Ends inp x 34 (some (rd x.irReg, Emu.muldiv ((funct3 x.irReg).setWidth 32) x.rs1Data x.rs2Data))
      (x.pcReg + 4#32) ((x.csrs.elapse 33).count none true) x.reservation none 0 := by
  have hone : run inp x 1 = x.muldivStarted := hx.tick_muldiv (hsoft 0 (by omega)) ht hmul
  have hwait : ∀ k < 32, (x.muldivStarted.idles k).tick (inp (1 + k)) =
      (x.muldivStarted.idles k).idles 1 := fun k hk ↦
    tick_muldiv_wait hx.riscv rfl (hsoft _ (by omega)) (MulDiv.fin_iterate (by omega))
  have hrun : ∀ k ≤ 32, run inp x (1 + k) = x.muldivStarted.idles k := by
    intro k hk
    rw [run_add, hone]
    exact run_idles hwait k hk
  have hend : run inp x 34 = (x.muldivStarted.idles 32).tick (inp 33) := by
    rw [run, hrun 32 le_rfl]
  rw [tick_muldiv_done (y := x.muldivStarted.idles 32) hx.riscv rfl (hsoft 33 (by omega))
    MulDiv.last_iterate.1] at hend
  have hobs : ∀ k ≤ 33, stores inp x (1 + k) = [] ∧ waits inp x (1 + k) = 0 := by
    intro k hk
    induction k with
    | zero => exact ⟨hx.stores_one inp, hx.waits_one inp⟩
    | succ k ih =>
      obtain ⟨hst, hwt⟩ := ih (by omega)
      have hst' : (x.muldivStarted.idles k).storeReq = none :=
        storeReq_of_state (s := x.muldivStarted.idles k) hx.riscv (by rintro ⟨⟩)
      have hwt' : waiting (inp (1 + k)) (x.muldivStarted.idles k) = false :=
        waiting_of_state (s := x.muldivStarted.idles k) hx.riscv (by rintro ⟨⟩) (by rintro ⟨⟩)
      rw [← Nat.add_assoc, stores, waits, hst, hwt, hrun k (by omega), hst', hwt']
      simp
  constructor
  case busy =>
    intro k hk
    cases k with
    | zero =>
      rw [run, hx.state]
      rintro ⟨⟩
    | succ k =>
      rw [Nat.add_comm k 1, hrun k (by omega)]
      rintro ⟨⟩
  case stores => exact (hobs 33 le_rfl).1
  case waits => exact (hobs 33 le_rfl).2
  all_goals rw [hend]
  case riscv => exact hx.riscv
  case pc => exact hx.pcPlus4
  case registers =>
    rw [← MulDiv.result_eq]
    rfl
  case csrs => rw [idles, muldivStarted, Csrs.elapse_elapse]
  case reservation => rfl

/-! ### Read-modify-write -/

/-- The last cycle of the load of an AMO. -/
theorem tick_amo_loaded {y : Cpu} (hr : y.isRiscvMode = true) (hs : y.state = .memWait)
    (hsoft : i.softRst = false) (hready : i.dataReady = true) (hrmw : y.rvAmoRmw = true)
    (hload : y.rLoadWe = true) (hstore : y.rStoreWe = false) : y.tick i =
    { y.idles 1 with
      rStoreWe := false
      rLoadWe := false
      rMemData := i.dataIn
      state := .amoCalc } := by
  rw [tick, if_neg (by simp [hsoft]), tickUnits_idle hr (by simp [hs]) hsoft
    (by simp [rvWriteback, hs, hrmw, hstore]) (by simp [rvRetire, hs, hrmw, hload, execRv]),
    tickState, hs]
  simp only [hready, hr, hrmw, hload, Bool.true_and, if_true]

/-- AMO_CALC. -/
theorem tick_amoCalc {y : Cpu} (hr : y.isRiscvMode = true) (hs : y.state = .amoCalc)
    (hsoft : i.softRst = false) : y.tick i =
    { y.idles 1 with
      rStoreAddr := y.rvMemAddr
      rStoreData := amoNew (funct5 y.irReg) y.rMemData y.rs2Data y.aluResult
      rStoreByteWe := y.rMemByteWe
      rStoreWe := true
      state := .memWait } := by
  rw [tick, if_neg (by simp [hsoft]), tickUnits_idle hr (by simp [hs]) hsoft
    (by simp [rvWriteback, hs]) (by simp [rvRetire, hs, execRv]), tickState, hs]

/-- AMO_CALC, after `w` waits for the word `d`. -/
def amoLoaded (x : Cpu) (w : ℕ) (d : Word) : Cpu :=
  { x.loadWait.idles (w + 1) with
    rStoreWe := false, rLoadWe := false, rMemData := d, state := .amoCalc }

/-- The new value of an AMO that read `d`. -/
def amoResult (x : Cpu) (d : Word) : Word :=
  amoNew (funct5 x.irReg) d x.rs2Data (alu d x.rs2Data (amoAluOp (funct5 x.irReg)))

/-- The first MEM_WAIT of an AMO's store. -/
def amoStoring (x : Cpu) (w : ℕ) (d : Word) : Cpu :=
  { (x.amoLoaded w d).idles 1 with
    rStoreAddr := x.rvMemAddr
    rStoreData := x.amoResult d
    rStoreByteWe := 0b1111#4
    rStoreWe := true
    state := .memWait }

/-- The cycles of an AMO up to its store's MEM_WAIT. -/
theorem Executing.run_amo (hx : x.Executing) {inp : ℕ → CpuIn} {w : ℕ} (ht : x.trap = .none)
    (hop : opcode x.irReg = .amo) (hlr : x.amoIsLr = false) (hsc : x.amoIsSc = false)
    (hw : Waits (fun k ↦ inp (1 + k)) w) (hsoft : ∀ k < w + 3, (inp k).softRst = false) :
    (∀ k ≤ w, run inp x (1 + k) = x.loadWait.idles k) ∧
      run inp x (w + 2) = x.amoLoaded w (inp (1 + w)).dataIn ∧
      run inp x (w + 3) = x.amoStoring w (inp (1 + w)).dataIn := by
  have hrmw : x.rvAmoRmw = true := by
    simp [rvAmoRmw, rvAmo, hop, hlr, hsc]
  have hone : run inp x 1 = x.loadWait := hx.tick_load (hsoft 0 (by omega)) ht (.inr ⟨hop, hsc⟩)
  have hrun : ∀ k ≤ w, run inp x (1 + k) = x.loadWait.idles k := by
    intro k hk
    rw [run_add, hone]
    exact run_memWait (y := x.loadWait) hw hx.riscv rfl (fun k hk ↦ hsoft _ (by omega)) k hk
  have hloaded : run inp x (w + 2) = x.amoLoaded w (inp (1 + w)).dataIn := by
    rw [show w + 2 = 1 + w + 1 by omega, run, hrun w le_rfl,
      tick_amo_loaded (y := x.loadWait.idles w) hx.riscv rfl (hsoft _ (by omega)) hw.ready hrmw rfl
        rfl,
      idles_idles]
    rfl
  refine ⟨hrun, hloaded, ?_⟩
  rw [run, hloaded, tick_amoCalc (y := x.amoLoaded w _) hx.riscv rfl (hsoft _ (by omega))]
  have halu : ∀ d, (x.amoLoaded w d).aluResult =
      alu d x.rs2Data (amoAluOp (funct5 x.irReg)) := by
    intro d
    have hin : (x.amoLoaded w d).aluIn = (d, x.rs2Data, amoAluOp (funct5 x.irReg)) := by
      unfold aluIn
      rw [if_pos (show (x.amoLoaded w d).isRiscvMode = true from hx.riscv),
        show opcode (x.amoLoaded w d).irReg = .amo from hop]
      rfl
    rw [aluResult, hin]
  have hwe : ∀ d, (x.amoLoaded w d).rMemByteWe = 0b1111#4 := by
    intro d
    rw [rMemByteWe, show opcode (x.amoLoaded w d).irReg = .amo from hop]
    simp
  rw [halu, hwe]
  rfl

/-- A read-modify-write. -/
theorem Executing.ends_amo (hx : x.Executing) {inp : ℕ → CpuIn} {w v : ℕ} (ht : x.trap = .none)
    (hop : opcode x.irReg = .amo) (hlr : x.amoIsLr = false) (hsc : x.amoIsSc = false)
    (hw : Waits (fun k ↦ inp (1 + k)) w) (hv : Waits (fun k ↦ inp (w + 3 + k)) v)
    (hsoft : ∀ k < w + v + 4, (inp k).softRst = false) :
    Ends inp x (w + v + 4) (some (rd x.irReg, (inp (1 + w)).dataIn)) (x.pcReg + 4#32)
      ((x.csrs.elapse (w + v + 3)).count none true) x.reservation
      (some (x.rvMemAddr, x.amoResult (inp (1 + w)).dataIn, 0b1111#4)) (w + v) := by
  obtain ⟨hrun, hloaded, hstoring⟩ := hx.run_amo ht hop hlr hsc hw fun k hk ↦ hsoft k (by omega)
  set d := (inp (1 + w)).dataIn
  have hsoft' : ∀ k < v, (inp (w + 3 + k)).softRst = false := fun k hk ↦ hsoft _ (by omega)
  have hone : run inp x 1 = x.loadWait := by
    rw [hrun 0 (by omega), idles_zero]
  have hrun' : ∀ k ≤ v, run inp x (w + 3 + k) = (x.amoStoring w d).idles k := by
    intro k hk
    rw [run_add, hstoring]
    exact run_memWait (y := x.amoStoring w d) hv hx.riscv rfl hsoft' k hk
  have hend : run inp x (w + v + 4) = ((x.amoStoring w d).idles v).tick (inp (w + 3 + v)) := by
    rw [show w + v + 4 = w + 3 + v + 1 by omega, run, hrun' v le_rfl]
  have hamo : ((x.amoStoring w d).idles v).rvAmo = true := decide_eq_true hop
  have hsc' : ((x.amoStoring w d).idles v).amoIsSc = false := hsc
  rw [tick_mem_done (y := (x.amoStoring w d).idles v) hx.riscv rfl (hsoft _ (by omega)) hv.ready
    (by rw [Bool.and_eq_false_iff]; exact .inr rfl), rvWriteback_store rfl rfl rfl hv.ready,
    if_pos hamo, hsc', if_neg Bool.false_ne_true] at hend
  obtain ⟨hst, hwt⟩ := observe_memWait (y := x.loadWait) hw hx.riscv rfl
    fun k hk ↦ hsoft _ (by omega)
  obtain ⟨hst', hwt'⟩ := observe_memWait (y := x.amoStoring w d) hv hx.riscv rfl hsoft'
  have hload : stores inp x (w + 2) = [] ∧ waits inp x (w + 2) = w := by
    rw [show w + 2 = 1 + (w + 1) by omega, stores_add, waits_add, hx.stores_one, hx.waits_one, hone,
      hst, hwt, storeReq_load (y := x.loadWait) hx.riscv rfl]
    exact ⟨rfl, Nat.zero_add w⟩
  have hcalc : stores inp x (w + 3) = [] ∧ waits inp x (w + 3) = w := by
    rw [stores, waits, hload.1, hload.2, hloaded,
      storeReq_of_state (s := x.amoLoaded w d) hx.riscv (by rintro ⟨⟩),
      waiting_of_state (s := x.amoLoaded w d) hx.riscv (by rintro ⟨⟩) (by rintro ⟨⟩)]
    simp
  constructor
  case busy =>
    intro k hk
    rcases Nat.lt_or_ge k (w + 3) with hk3 | hk3
    · cases k with
      | zero =>
        rw [run, hx.state]
        rintro ⟨⟩
      | succ k =>
        rcases Nat.lt_or_ge k (w + 1) with hk1 | hk1
        · rw [Nat.add_comm k 1, hrun k (by omega)]
          rintro ⟨⟩
        · rw [show k + 1 = w + 2 by omega, hloaded]
          rintro ⟨⟩
    · obtain ⟨j, rfl⟩ := Nat.exists_eq_add_of_le hk3
      rw [hrun' j (by omega)]
      rintro ⟨⟩
  case stores =>
    rw [show w + v + 4 = w + 3 + (v + 1) by omega, stores_add, hcalc.1, hstoring, hst',
      storeReq_store (y := x.amoStoring w d) hx.riscv rfl rfl]
    rfl
  case waits => rw [show w + v + 4 = w + 3 + (v + 1) by omega, waits_add, hcalc.2, hstoring, hwt']
  all_goals rw [hend]
  case riscv => exact hx.riscv
  case pc => exact hx.pcPlus4
  case registers => rfl
  case csrs =>
    change (((((x.csrs.elapse 1).elapse (w + 1)).elapse 1).elapse v)).count none true = _
    rw [Csrs.elapse_elapse, Csrs.elapse_elapse, Csrs.elapse_elapse]
    congr 2
    omega
  case reservation =>
    change x.loadWait.reservation = x.reservation
    simp [reservation, loadWait, hlr]

end

end Cpu

end Vux9k.Rtl
