import Vux9k.Lockstep.Csrs
import Vux9k.Lockstep.Execute

/-!
# An RV32 instruction on the RTL and in the emulator

`step_rv` says at once what `unified_cpu` does from the last FETCH cycle of an instruction to the
first of the next.  The emulator's bus answers as the RTL's inputs do (`Answers`); the states on
both sides correspond again afterwards (`Corresponds`), and the RTL has requested the store that the
emulator has made.
-/

set_option autoImplicit false

namespace Vux9k

open Rtl (Cpu CpuIn)
open Rtl.Cpu (run stores waits writeReg Waits Ends Executing)
open Emu (Soc Bus Retire)

variable {σ : Type}

/-! ## Statement -/

/-- The CPU in a FETCH of an RV32 instruction, and the emulator's before its step. -/
structure Corresponds (s : Cpu) (e : Soc σ) : Prop where
  riscv : s.isRiscvMode = true
  mode : e.riscvMode = true
  mExt : e.mExt = true
  regs : ∀ q, e.regs q = s.reg q
  pc : e.pc = s.pcReg
  csr : e.csr = s.csrs.toEmu
  reservation : e.reservation = s.reservation
  written : e.mcycleWritten = none

/-- From the EXECUTE `x` on, the inputs are what the bus answers to the instruction of `cycle`. -/
structure Answers (bus : Bus σ) (cycle : ℕ) (mem : σ) (inp : ℕ → CpuIn) (x : Cpu) : Prop where
  /-- The CSR inputs of a CSR instruction are those of EXECUTE. -/
  mip : Rtl.opcode x.irReg = .system → (bus.mipAt cycle mem).1 = (inp 0).lines.mip
  mtime : Rtl.opcode x.irReg = .system →
    bus.mtime cycle (bus.mipAt cycle mem).2 + 1#64 = (inp 0).mtime
  /-- A load waits as long as the bus says, and gets the bus's word. -/
  load : (run inp x 1).state = .memWait → (run inp x 1).rLoadWe = true →
    Waits (fun k ↦ inp (1 + k)) (bus.loadWait (run inp x 1).dataAddr mem).1 ∧
      (inp (1 + (bus.loadWait (run inp x 1).dataAddr mem).1)).dataIn =
        (bus.readWord (run inp x 1).dataAddr cycle (bus.loadWait (run inp x 1).dataAddr mem).2).1
  /-- A store waits as long as the bus says. -/
  store : ∀ a d be, (run inp x 1).storeReq = some (a, d, be) →
    Waits (fun k ↦ inp (1 + k)) (bus.write a d be cycle mem).1
  /-- So does the store of an AMO, which comes two cycles after the end of its load. -/
  amo : (run inp x 1).state = .memWait → (run inp x 1).rLoadWe = true → ∀ w mem₁ a d be,
    bus.loadWait (run inp x 1).dataAddr mem = (w, mem₁) →
    (run inp x (w + 3)).storeReq = some (a, d, be) →
    Waits (fun k ↦ inp (w + 3 + k)) (bus.write a d be (cycle + (3 + w))
      (bus.readWord (run inp x 1).dataAddr cycle mem₁).2).1

/-- The cycles of an instruction but for its waits. -/
def cost (i : Word) (trap scFails : Bool) : ℕ :=
  if trap then 2
  else
    match Rtl.opcode i with
    | .load | .store => 3
    | .amo =>
      if Rtl.isSc (Rtl.funct5 i) then if scFails then 2 else 3
      else if Rtl.isLr (Rtl.funct5 i) then 3
      else 5
    | .rType => if Rtl.funct7 i = 1#7 then 35 else 2
    | _ => 2

/-- What a trap leaves as it was: all but its CSRs, the privilege, the reservation and `pc`. -/
structure Kept (s t : Cpu) : Prop where
  registers : t.registers = s.registers
  mie : t.csrs.mie = s.csrs.mie
  mtvec : t.csrs.mtvec = s.csrs.mtvec
  mscratch : t.csrs.mscratch = s.csrs.mscratch
  minstret : t.csrs.minstret = s.csrs.minstret
  /-- MPRV and TW -/
  mstatus : t.csrs.mstatus &&& 0x00220000#32 = s.csrs.mstatus &&& 0x00220000#32

/-! ## The emulator's side -/

section

variable {x : Cpu} {e : Soc σ} {c : Rtl.Csrs}

/-- An instruction in EXECUTE, its registers and CSRs as the emulator has them: `c` are the CSRs of
the FETCH before. -/
structure AtExecute (c : Rtl.Csrs) (x : Cpu) (e : Soc σ) : Prop where
  executing : x.Executing
  wf : x.Wf
  mode : e.riscvMode = true
  mExt : e.mExt = true
  regs : ∀ q, e.regs q = x.reg q
  pc : e.pc = x.pcReg
  csr : e.csr = c.toEmu
  elapsed : x.csrs = c.elapse 1
  reservation : e.reservation = x.reservation
  written : e.mcycleWritten = none

theorem writeRd_fst (s : Soc σ) (rd : BitVec 5) (v : Word) (r : Retire) :
    (s.writeRd rd v r).1 = { s with regs := writeReg s.regs (some (rd, v)) } := by
  unfold Soc.writeRd writeReg
  by_cases h : rd = 0#5
  · simp [h]
  · simp [h]

theorem writeRd_snd (s : Soc σ) (rd : BitVec 5) (v : Word) (r : Retire) :
    (s.writeRd rd v r).2.store = r.store ∧ (s.writeRd rd v r).2.cycles = r.cycles ∧
      (s.writeRd rd v r).2.trap = r.trap := by
  unfold Soc.writeRd
  split <;> exact ⟨rfl, rfl, rfl⟩

theorem reg_writeReg {f : BitVec 5 → Word} {s t : Cpu} (hf : ∀ q, f q = s.reg q)
    {wr : Option (BitVec 5 × Word)} (ht : t.registers = writeReg s.registers wr) (q : BitVec 5) :
    writeReg f wr q = t.reg q := by
  unfold Rtl.Cpu.reg at *
  rw [ht]
  rcases wr with _ | ⟨rd, v⟩
  · exact hf q
  · unfold writeReg
    by_cases h0 : rd = 0#5
    · simp only [h0, if_true]
      exact hf q
    · simp only [h0, if_false]
      by_cases hq : q = 0#5
      · rw [if_pos hq, Function.update_of_ne (by rw [hq]; exact fun h ↦ h0 h.symm), hf q, if_pos hq]
      · rw [if_neg hq]
        by_cases hrd : q = rd
        · rw [hrd, Function.update_self, Function.update_self]
        · rw [Function.update_of_ne hrd, Function.update_of_ne hrd, hf q, if_neg hq]

/-- The run from the EXECUTE `x` and the emulator's instruction, with its state `e` and report
`r`. -/
structure Agrees (inp : ℕ → CpuIn) (x : Cpu) (e : Soc σ) (r : Retire) : Prop where
  cycles : 2 ≤ r.cycles
  busy : ∀ k < r.cycles - 1, (run inp x k).state ≠ .fetch
  state : (run inp x (r.cycles - 1)).state = .fetch
  corresponds : Corresponds (run inp x (r.cycles - 1)) (e.endStep r.cycles)
  stores : stores inp x (r.cycles - 1) = r.store.toList
  cost : r.cycles = waits inp x (r.cycles - 1) + cost x.irReg r.trap.isSome (!x.amoScOk)
  kept : r.trap.isSome = true → Kept x (run inp x (r.cycles - 1)) ∧ r.store = none ∧ r.cycles = 2

/-- The RTL's end of an instruction against the emulator's. -/
theorem AtExecute.agrees (hx : AtExecute c x e) {inp : ℕ → CpuIn} {n w : ℕ}
    {wr : Option (BitVec 5 × Word)} {pc : Word} {csrs : Rtl.Csrs} {resv : Option Word}
    {store : Option (Word × Word × BitVec 4)} (h : Ends inp x n wr pc csrs resv store w)
    {e' : Soc σ} {r : Retire} (hn : 1 ≤ n) (hcycles : r.cycles = n + 1)
    (hmode : e'.riscvMode = e.riscvMode) (hmExt : e'.mExt = e.mExt)
    (hregs : e'.regs = writeReg e.regs wr) (hpc : e'.pc = pc)
    (hcsr : (e'.endStep (n + 1)).csr = csrs.toEmu) (hresv : e'.reservation = resv)
    (hstore : r.store = store) (hcost : n + 1 = w + cost x.irReg r.trap.isSome (!x.amoScOk))
    (hkept : r.trap.isSome = true → wr = none ∧ csrs.mie = x.csrs.mie ∧ csrs.mtvec = x.csrs.mtvec ∧
      csrs.mscratch = x.csrs.mscratch ∧ csrs.minstret = x.csrs.minstret ∧
      csrs.mstatus &&& 0x00220000#32 = x.csrs.mstatus &&& 0x00220000#32 ∧ store = none ∧ n = 1) :
    Agrees inp x e' r := by
  have hlen : r.cycles - 1 = n := by omega
  constructor
  case cycles => omega
  all_goals rw [hlen]
  case busy => exact h.busy
  case state => exact h.state
  case corresponds =>
    constructor
    case riscv => exact h.riscv
    case mode => exact hmode.trans hx.mode
    case mExt => exact hmExt.trans hx.mExt
    case regs =>
      intro q
      change e'.regs q = _
      rw [hregs]
      exact reg_writeReg hx.regs h.registers q
    case pc => exact hpc.trans h.pc.symm
    case csr => rw [hcycles, hcsr, h.csrs]
    case reservation => exact hresv.trans h.reservation.symm
    case written => rfl
  case stores => rw [h.stores, hstore]
  case cost => rw [hcycles, h.waits, hcost]
  case kept =>
    intro htrap
    obtain ⟨hwr, hmie, hmtvec, hmscratch, hminstret, hmstatus, hnone, hone⟩ := hkept htrap
    rw [← h.csrs] at hmie hmtvec hmscratch hminstret hmstatus
    exact ⟨⟨by rw [h.registers, hwr]; rfl, hmie, hmtvec, hmscratch, hminstret, hmstatus⟩,
      hstore.trans hnone, by omega⟩

/-- The counters at the end of an instruction that takes `n + 1` cycles and writes none of them. -/
theorem AtExecute.csr_count (hx : AtExecute c x e) (n : ℕ) :
    ((x.csrs.elapse n).count none true).toEmu =
      { e.csr with
        mcycle := e.csr.mcycle + BitVec.ofNat 64 (n + 2)
        minstret := e.csr.minstret + 1#64 } := by
  rw [hx.elapsed, Rtl.Csrs.elapse_elapse, Rtl.Csrs.count_none, Rtl.Csrs.elapse_elapse, hx.csr,
    show 1 + n + 1 = n + 2 by omega]
  rfl

/-- A trap. -/
theorem AtExecute.agrees_trap (hx : AtExecute c x e) {inp : ℕ → CpuIn}
    (hsoft : (inp 0).softRst = false) {cause val : Word} (ht : x.trap = .entry cause val)
    {r : Retire} (hr : r.store = none) :
    Agrees inp x (e.takeTrap cause val r).1 (e.takeTrap cause val r).2 := by
  have hc : c.mstatus &&& Rtl.Csrs.mstatusMask = c.mstatus := by
    have := hx.wf.csrs.mstatus
    rw [hx.elapsed] at this
    exact this
  refine hx.agrees (hx.executing.ends_trap hsoft ht) le_rfl rfl rfl rfl rfl ?_ ?_ rfl hr ?_ ?_
  · change e.csr.mtvec = x.csrs.mtvec
    rw [hx.csr, hx.elapsed]
    rfl
  · rw [hx.elapsed, Rtl.Csrs.elapse_elapse, Rtl.Csrs.toEmu_trapEntry (c := c.elapse (1 + 1)) hc]
    unfold Soc.takeTrap Soc.endStep Emu.Csrs.enterTrap
    rw [hx.written, hx.csr, hx.pc]
    rfl
  · rfl
  · intro _
    refine ⟨rfl, rfl, rfl, rfl, rfl, ?_, rfl, rfl⟩
    have hbits : ∀ a b p t : Bool, Rtl.setBit (Rtl.setBit (Rtl.Csrs.mstatusOf a b p t) 7
        ((Rtl.Csrs.mstatusOf a b p t).getLsbD 3)) 3 false &&& 0x00220000#32 =
          Rtl.Csrs.mstatusOf a b p t &&& 0x00220000#32 := by decide
    change Rtl.setBit (Rtl.setBit x.csrs.mstatus 7 (x.csrs.mstatus.getLsbD 3)) 3 false &&& _ = _
    rw [Rtl.Csrs.eq_mstatusOf hx.wf.csrs.mstatus]
    exact hbits _ _ _ _

/-- An instruction that does not trap and writes no CSR: it has counted in `minstret`. -/
theorem AtExecute.agrees_done (hx : AtExecute c x e) {inp : ℕ → CpuIn} {n w : ℕ}
    {wr : Option (BitVec 5 × Word)} {pc : Word} {resv : Option Word}
    {store : Option (Word × Word × BitVec 4)}
    (h : Ends inp x (n + 1) wr pc ((x.csrs.elapse n).count none true) resv store w) {mem : σ}
    {r : Retire} (hcycles : r.cycles = n + 2) (hstore : r.store = store) (hrt : r.trap = none)
    (hcost : n + 2 = w + cost x.irReg false (!x.amoScOk)) :
    Agrees inp x
      { e with
        regs := writeReg e.regs wr
        csr := { e.csr with minstret := e.csr.minstret + 1#64 }
        pc := pc
        reservation := resv
        mem := mem } r := by
  refine hx.agrees h (by omega) hcycles rfl rfl rfl rfl ?_ rfl hstore ?_ (by simp [hrt])
  · rw [hx.csr_count n]
    unfold Soc.endStep
    rw [hx.written]
    rfl
  · rw [hrt]
    exact hcost

/-- An instruction that takes two cycles and writes no CSR. -/
theorem AtExecute.agrees_simple (hx : AtExecute c x e) {inp : ℕ → CpuIn}
    (hsoft : (inp 0).softRst = false) (ht : x.trap = .none) (hmul : x.rvMuldiv = false)
    (hload : Rtl.opcode x.irReg ≠ .load) (hstore : Rtl.opcode x.irReg ≠ .store)
    (hamo : Rtl.opcode x.irReg ≠ .amo) {w : Option (BitVec 5 × Word)} {n : Word}
    (hwb : x.rvWriteback (inp 0) = w) (hnext : x.nextPc = n) (hwr : x.csrWr (inp 0) = none)
    {r : Retire} (hcycles : r.cycles = 2) (hrs : r.store = none) (hrt : r.trap = none) :
    Agrees inp x
      { e with
        regs := writeReg e.regs w
        csr := { e.csr with minstret := e.csr.minstret + 1#64 }
        pc := n } r := by
  have hends := hx.executing.ends_simple hsoft ht hmul hload hstore hamo
  rw [hwb, hnext, hwr] at hends
  have hcsrs : x.csrs.tick .none x.pcReg none true = (x.csrs.elapse 0).count none true := by
    simp [Rtl.Csrs.elapse, Rtl.Csrs.tick]
  rw [hcsrs, ← hx.reservation] at hends
  refine hx.agrees_done hends hcycles hrs hrt ?_
  have hmul' : Rtl.opcode x.irReg = .rType → Rtl.funct7 x.irReg ≠ 1#7 := by
    intro hop h7
    simp [Rtl.Cpu.rvMuldiv, hop, h7] at hmul
  unfold cost
  cases hop : Rtl.opcode x.irReg <;> simp_all

theorem retire_writeRd (s : Soc σ) (rd : BitVec 5) (v next : Word) (r : Retire) :
    (s.writeRd rd v r).1.retire next true (s.writeRd rd v r).2 =
      ({ s with
        regs := writeReg s.regs (some (rd, v))
        csr := { s.csr with minstret := s.csr.minstret + 1#64 }
        pc := next }, (s.writeRd rd v r).2) := by
  rw [writeRd_fst]
  rfl

/-- An instruction that only writes `rd`. -/
theorem AtExecute.agrees_write (hx : AtExecute c x e) {inp : ℕ → CpuIn}
    (hsoft : (inp 0).softRst = false) (ht : x.trap = .none) (hmul : x.rvMuldiv = false)
    (hload : Rtl.opcode x.irReg ≠ .load) (hstore : Rtl.opcode x.irReg ≠ .store)
    (hamo : Rtl.opcode x.irReg ≠ .amo) {v n : Word}
    (hwb : x.rvWriteback (inp 0) = some (Rtl.rd x.irReg, v)) (hnext : x.nextPc = n)
    (hwr : x.csrWr (inp 0) = none) {r : Retire} (hcycles : r.cycles = 2) (hrs : r.store = none)
    (hrt : r.trap = none) {p : Soc σ × Retire} (hp : p = (e.writeRd (Emu.rd x.irReg) v r).1.retire
      n true (e.writeRd (Emu.rd x.irReg) v r).2) : Agrees inp x p.1 p.2 := by
  obtain ⟨h1, h2, h3⟩ := writeRd_snd e (Emu.rd x.irReg) v r
  have h := hx.agrees_simple hsoft ht hmul hload hstore hamo hwb hnext hwr (h2.trans hcycles)
    (h1.trans hrs) (h3.trans hrt)
  rw [hp, retire_writeRd, emu_rd]
  rw [emu_rd] at h
  exact h

end

/-! ## The RTL's traps -/

section

variable {x : Cpu}

theorem trap_irq (hx : x.Executing) (hirq : x.rIrq = true) : x.trap = .entry x.rIrqCause 0#32 := by
  rw [Rtl.Cpu.trap, if_pos hx.execRv, Rtl.trapUnit, if_pos hirq]

theorem trap_illegal (hx : x.Executing) (hirq : x.rIrq = false)
    (hill : Rtl.isIllegal x.irReg x.csrs.privU x.csrs.tw = true) :
    x.trap = .entry 2#32 x.irReg := by
  rw [Rtl.Cpu.trap, if_pos hx.execRv, Rtl.trapUnit, hirq, if_neg Bool.false_ne_true, if_pos hill]

/-- An instruction is legal, and no interrupt was taken in its place. -/
structure Legal (x : Cpu) : Prop where
  irq : x.rIrq = false
  legal : Rtl.isIllegal x.irReg x.csrs.privU x.csrs.tw = false

theorem opcode_of_eq {i : Word} (h : Rtl.isEcall i = true ∨ Rtl.isEbreak i = true ∨
    Rtl.isMret i = true) : Rtl.opcode i = .system ∧ Rtl.funct3 i = 0#3 := by
  unfold Rtl.isEcall Rtl.isEbreak Rtl.isMret at h
  simp only [decide_eq_true_eq] at h
  rcases h with rfl | rfl | rfl <;> exact ⟨rfl, rfl⟩

/-- The traps of an instruction that is not a SYSTEM instruction. -/
theorem trap_legal (hx : x.Executing) (h : Legal x) (hop : Rtl.opcode x.irReg ≠ .system) : x.trap =
    if Rtl.fetchMisalign x.irReg (Rtl.branchTake (Rtl.funct3 x.irReg) x.rs1Data x.rs2Data)
        x.memAddrLow then
      .entry 0#32 (if Rtl.opcode x.irReg = .jalr then Rtl.jalrTarget x.rvMemAddr
        else x.pcReg + Rtl.imm x.irReg)
    else if Rtl.memMisalign x.irReg x.memAddrLow then
      .entry (if Rtl.opcode x.irReg = .load ||
        (Rtl.opcode x.irReg = .amo && Rtl.isLr (Rtl.funct5 x.irReg)) then 4#32 else 6#32)
          x.rvMemAddr
    else .none := by
  have hecall : Rtl.isEcall x.irReg = false := by
    by_contra hne
    exact hop (opcode_of_eq (.inl (by simpa using hne))).1
  have hebreak : Rtl.isEbreak x.irReg = false := by
    by_contra hne
    exact hop (opcode_of_eq (.inr (.inl (by simpa using hne)))).1
  have hmret : Rtl.isMret x.irReg = false := by
    by_contra hne
    exact hop (opcode_of_eq (.inr (.inr (by simpa using hne)))).1
  rw [Rtl.Cpu.trap, if_pos hx.execRv, Rtl.trapUnit, h.irq, h.legal, hecall, hebreak, hmret]
  simp only [Bool.false_eq_true, if_false]

end

/-! ## Instruction by instruction -/

section

variable {x : Cpu} {e : Soc σ} {c : Rtl.Csrs} {inp : ℕ → CpuIn} (bus : Bus σ)

theorem AtExecute.rvIllegal (hx : AtExecute c x e) :
    Emu.rvIllegal x.irReg ⟨e.mExt, e.csr.user, e.csr.mstatus &&& Emu.mstatusTw ≠ 0#32⟩ =
      Rtl.isIllegal x.irReg x.csrs.privU x.csrs.tw := by
  have htw : decide (e.csr.mstatus &&& Emu.mstatusTw ≠ 0#32) = x.csrs.tw := by
    have hbits : ∀ a b p t : Bool,
        decide (Rtl.Csrs.mstatusOf a b p t &&& Emu.mstatusTw ≠ 0#32) =
          (Rtl.Csrs.mstatusOf a b p t).getLsbD 21 := by decide
    have hm : e.csr.mstatus = x.csrs.mstatus := by
      rw [hx.csr, hx.elapsed]
      rfl
    rw [hm, Rtl.Csrs.tw, Rtl.Csrs.eq_mstatusOf hx.wf.csrs.mstatus]
    exact hbits _ _ _ _
  have huser : e.csr.user = x.csrs.privU := by
    rw [hx.csr, hx.elapsed]
    rfl
  rw [htw, hx.mExt, huser, rvIllegal_eq]

theorem AtExecute.reg1 (hx : AtExecute c x e) : e.regs (Emu.rs1 x.irReg) = x.rs1Data := by
  rw [hx.regs, emu_rs1, Rtl.Cpu.rs1Data, if_pos hx.executing.riscv]

theorem AtExecute.reg2 (hx : AtExecute c x e) : e.regs (Emu.rs2 x.irReg) = x.rs2Data := by
  rw [hx.regs, emu_rs2, Rtl.Cpu.rs2Data, if_pos hx.executing.riscv]

theorem AtExecute.rvWriteback (hx : AtExecute c x e) (i : CpuIn) : x.rvWriteback i =
    match Rtl.opcode x.irReg with
    | .rType | .iType | .lui | .auipc =>
      if x.rvMuldiv then none else some (Rtl.rd x.irReg, x.aluResult)
    | .jal | .jalr => some (Rtl.rd x.irReg, e.pc + 4#32)
    | .amo => if x.rvScFailed then some (Rtl.rd x.irReg, 1#32) else none
    | .system =>
      if Rtl.funct3 x.irReg ≠ 0b000#3 then some (Rtl.rd x.irReg, x.csrRdata i) else none
    | _ => none := by
  rw [hx.pc, ← hx.executing.pcPlus4]
  cases hop : Rtl.opcode x.irReg <;>
    simp only [Rtl.Cpu.rvWriteback, hx.executing.state, hop]

theorem csrWr_none {i : CpuIn} (hop : Rtl.opcode x.irReg ≠ .system) : x.csrWr i = none := by
  simp [Rtl.Cpu.csrWr, Rtl.Cpu.csrAccess, hop]

theorem AtExecute.aluResult (hx : AtExecute c x e) : x.aluResult =
    match Rtl.opcode x.irReg with
    | .auipc => Rtl.alu x.pcReg (Rtl.imm x.irReg) .add
    | .lui => Rtl.alu 0#32 (Rtl.imm x.irReg) .copyB
    | .iType => Rtl.alu x.rs1Data (Rtl.imm x.irReg)
        (Rtl.rvAluOp .iType (Rtl.funct3 x.irReg) (Rtl.funct7 x.irReg))
    | .rType => Rtl.alu x.rs1Data x.rs2Data
        (Rtl.rvAluOp .rType (Rtl.funct3 x.irReg) (Rtl.funct7 x.irReg))
    | .amo => Rtl.alu x.rMemData x.rs2Data (Rtl.amoAluOp (Rtl.funct5 x.irReg))
    | .branch => Rtl.alu x.rs1Data x.rs2Data .sub
    | _ => Rtl.alu 0#32 0#32 .add := by
  rw [Rtl.Cpu.aluResult, Rtl.Cpu.aluIn, if_pos hx.executing.riscv]
  cases Rtl.opcode x.irReg <;> rfl

/-- The inputs hold no soft reset until the end of the instruction. -/
def Undisturbed (inp : ℕ → CpuIn) (r : Retire) : Prop := ∀ k < r.cycles - 1, (inp k).softRst = false

theorem funct7_legal (h : Legal x) (hop : Rtl.opcode x.irReg = .rType) :
    Rtl.funct7 x.irReg = 0x20#7 ∨ (Rtl.funct7 x.irReg).getLsbD 5 = false := by
  have hleg := h.legal
  rw [Rtl.isIllegal, hop] at hleg
  dsimp only at hleg
  by_cases h20 : Rtl.funct7 x.irReg = 0x20#7
  · exact .inl h20
  · right
    simp only [h20, decide_false, Bool.false_and, Bool.or_false, Bool.not_eq_false',
      Bool.or_eq_true, decide_eq_true_eq] at hleg
    rcases hleg with h0 | h1
    · rw [h0]
      rfl
    · rw [h1]
      rfl

/-- OP. -/
theorem AtExecute.agrees_rType (hx : AtExecute c x e) (h : Legal x)
    (hop : Rtl.opcode x.irReg = .rType)
    (hsoft : Undisturbed inp (e.stepRv bus x.irReg none .default).2) :
    Agrees inp x (e.stepRv bus x.irReg none .default).1 (e.stepRv bus x.irReg none .default).2 := by
  have ht : x.trap = .none := by
    rw [trap_legal hx.executing h (by simp [hop]), Rtl.fetchMisalign, Rtl.memMisalign, hop]
    rfl
  have hill := hx.rvIllegal.trans h.legal
  have h7 : Emu.funct7 x.irReg = 1#32 ↔ Rtl.funct7 x.irReg = 1#7 := by
    rw [emu_funct7]
    generalize Rtl.funct7 x.irReg = f
    revert f
    decide
  by_cases hmul : Emu.funct7 x.irReg = 1#32
  · set r : Retire := { Retire.default with cycles := 2 + 33 } with hr
    set v := Emu.muldiv (Emu.funct3 x.irReg) (e.regs (Emu.rs1 x.irReg))
      (e.regs (Emu.rs2 x.irReg)) with hv
    have hstep : e.stepRv bus x.irReg none .default = (e.writeRd (Emu.rd x.irReg) v r).1.retire
        (e.pc + 4#32) true (e.writeRd (Emu.rd x.irReg) v r).2 := by
      unfold Soc.stepRv
      dsimp only
      rw [if_neg (by rw [hill]; exact Bool.false_ne_true), emu_op, hop]
      dsimp only [Rtl.Opcode.toEmu]
      rw [if_pos hmul]
    rw [hstep, retire_writeRd] at hsoft ⊢
    obtain ⟨h1, h2, h3⟩ := writeRd_snd e (Emu.rd x.irReg) v r
    have hmul' : x.rvMuldiv = true := by
      simp [Rtl.Cpu.rvMuldiv, hop, h7.mp hmul]
    have hends := hx.executing.ends_muldiv ht hmul' fun k hk ↦
      hsoft k (by rw [h2]; exact hk)
    rw [← hx.reservation, ← hx.pc, ← hx.reg1, ← hx.reg2, ← emu_funct3, ← hv, ← emu_rd] at hends
    exact hx.agrees_done hends h2 h1 h3 (by simp [cost, hop, h7.mp hmul])
  · set r : Retire := { Retire.default with cycles := 2 }
    set v := Emu.aluValue x.irReg (e.regs (Emu.rs1 x.irReg)) (e.regs (Emu.rs2 x.irReg)) with hv
    have hstep : e.stepRv bus x.irReg none .default = (e.writeRd (Emu.rd x.irReg) v r).1.retire
        (e.pc + 4#32) true (e.writeRd (Emu.rd x.irReg) v r).2 := by
      unfold Soc.stepRv
      dsimp only
      rw [if_neg (by rw [hill]; exact Bool.false_ne_true), emu_op, hop]
      dsimp only [Rtl.Opcode.toEmu]
      rw [if_neg hmul]
    obtain ⟨-, h2, -⟩ := writeRd_snd e (Emu.rd x.irReg) v r
    have hmul' : x.rvMuldiv = false := by
      simp [Rtl.Cpu.rvMuldiv, mt h7.mpr hmul]
    have halu : x.aluResult = v := by
      rw [hx.aluResult, hop, hv, hx.reg1, hx.reg2,
        aluValue_eq (.inl hop) (fun _ ↦ funct7_legal h hop),
        hop]
    refine hx.agrees_write (hsoft 0 ?_) ht hmul' (by simp [hop]) (by simp [hop]) (by simp [hop])
      (v := v) ?_ ?_ (csrWr_none (by simp [hop])) rfl rfl rfl hstep
    · rw [hstep, retire_writeRd, h2]
      decide
    · rw [hx.rvWriteback, hop, hmul', halu]
      rfl
    · rw [hx.executing.nextPc_of_none ht, hop, hx.pc]

/-- OP-IMM. -/
theorem AtExecute.agrees_iType (hx : AtExecute c x e) (h : Legal x)
    (hop : Rtl.opcode x.irReg = .iType) (hsoft : (inp 0).softRst = false) :
    Agrees inp x (e.stepRv bus x.irReg none .default).1 (e.stepRv bus x.irReg none .default).2 := by
  have ht : x.trap = .none := by
    rw [trap_legal hx.executing h (by simp [hop]), Rtl.fetchMisalign, Rtl.memMisalign, hop]
    rfl
  have hill := hx.rvIllegal.trans h.legal
  have hmul : x.rvMuldiv = false := by
    simp [Rtl.Cpu.rvMuldiv, hop]
  refine hx.agrees_write hsoft ht hmul (by simp [hop]) (by simp [hop]) (by simp [hop])
    (v := Emu.aluValue x.irReg (e.regs (Emu.rs1 x.irReg)) (Emu.immI x.irReg)) (n := e.pc + 4#32)
    (r := { Retire.default with cycles := 2 }) ?_ ?_
    (csrWr_none (by simp [hop])) rfl rfl rfl ?_
  · rw [hx.rvWriteback, hop, hmul, if_neg Bool.false_ne_true, hx.aluResult, hop]
    rw [hx.reg1, aluValue_eq (.inr hop) (by simp [hop]), hop, ← emu_immI, Rtl.imm, hop]
  · rw [hx.executing.nextPc_of_none ht, hop, hx.pc]
  · unfold Soc.stepRv
    dsimp only
    rw [if_neg (by rw [hill]; exact Bool.false_ne_true), emu_op, hop]
    rfl

/-- LUI. -/
theorem AtExecute.agrees_lui (hx : AtExecute c x e) (h : Legal x)
    (hop : Rtl.opcode x.irReg = .lui) (hsoft : (inp 0).softRst = false) :
    Agrees inp x (e.stepRv bus x.irReg none .default).1 (e.stepRv bus x.irReg none .default).2 := by
  have ht : x.trap = .none := by
    rw [trap_legal hx.executing h (by simp [hop]), Rtl.fetchMisalign, Rtl.memMisalign, hop]
    rfl
  have hill := hx.rvIllegal.trans h.legal
  have hmul : x.rvMuldiv = false := by
    simp [Rtl.Cpu.rvMuldiv, hop]
  refine hx.agrees_write hsoft ht hmul (by simp [hop]) (by simp [hop]) (by simp [hop])
    (v := Emu.immU x.irReg) (n := e.pc + 4#32) (r := { Retire.default with cycles := 2 }) ?_ ?_
    (csrWr_none (by simp [hop])) rfl rfl rfl ?_
  · rw [hx.rvWriteback, hop, hmul, if_neg Bool.false_ne_true, hx.aluResult, hop]
    rw [← immU_eq, Rtl.imm, hop]
    rfl
  · rw [hx.executing.nextPc_of_none ht, hop, hx.pc]
  · unfold Soc.stepRv
    dsimp only
    rw [if_neg (by rw [hill]; exact Bool.false_ne_true), emu_op, hop]
    rfl

/-- AUIPC. -/
theorem AtExecute.agrees_auipc (hx : AtExecute c x e) (h : Legal x)
    (hop : Rtl.opcode x.irReg = .auipc) (hsoft : (inp 0).softRst = false) :
    Agrees inp x (e.stepRv bus x.irReg none .default).1 (e.stepRv bus x.irReg none .default).2 := by
  have ht : x.trap = .none := by
    rw [trap_legal hx.executing h (by simp [hop]), Rtl.fetchMisalign, Rtl.memMisalign, hop]
    rfl
  have hill := hx.rvIllegal.trans h.legal
  have hmul : x.rvMuldiv = false := by
    simp [Rtl.Cpu.rvMuldiv, hop]
  refine hx.agrees_write hsoft ht hmul (by simp [hop]) (by simp [hop]) (by simp [hop])
    (v := e.pc + Emu.immU x.irReg) (n := e.pc + 4#32)
    (r := { Retire.default with cycles := 2 }) ?_ ?_
    (csrWr_none (by simp [hop])) rfl rfl rfl ?_
  · rw [hx.rvWriteback, hop, hmul, if_neg Bool.false_ne_true, hx.aluResult, hop]
    rw [← immU_eq, Rtl.imm, hop, hx.pc]
    dsimp only
    rw [alu_add]
  · rw [hx.executing.nextPc_of_none ht, hop, hx.pc]
  · unfold Soc.stepRv
    dsimp only
    rw [if_neg (by rw [hill]; exact Bool.false_ne_true), emu_op, hop]
    rfl

/-- A target is misaligned when the offset is. -/
theorem target_misaligned {pc : Word} (hpc : Rtl.Aligned pc) (off : Word) :
    (pc + off &&& 2#32 ≠ 0#32) = (off.getLsbD 1 = true) := by
  rw [target_and_two, Rtl.Cpu.extract_add, hpc, BitVec.zero_add]
  simp

theorem AtExecute.pc_aligned (hx : AtExecute c x e) : Rtl.Aligned e.pc := by
  rw [hx.pc]
  exact hx.wf.pc hx.executing.riscv

/-- JAL. -/
theorem AtExecute.agrees_jal (hx : AtExecute c x e) (h : Legal x)
    (hop : Rtl.opcode x.irReg = .jal) (hsoft : (inp 0).softRst = false) :
    Agrees inp x (e.stepRv bus x.irReg none .default).1 (e.stepRv bus x.irReg none .default).2 := by
  have hill := hx.rvIllegal.trans h.legal
  have ht := trap_legal hx.executing h (by simp [hop])
  rw [Rtl.fetchMisalign, Rtl.memMisalign, hop] at ht
  dsimp only at ht
  have hmis : (e.pc + Emu.immJ x.irReg &&& 2#32 ≠ 0#32) = ((Rtl.imm x.irReg).getLsbD 1 = true) := by
    rw [target_misaligned hx.pc_aligned, imm_jal _ hop]
  by_cases hm : e.pc + Emu.immJ x.irReg &&& 2#32 ≠ 0#32
  · rw [if_pos (hmis ▸ hm), if_neg (by simp)] at ht
    have hstep : e.stepRv bus x.irReg none .default =
        e.takeTrap 0#32 (x.pcReg + Rtl.imm x.irReg) { Retire.default with cycles := 2 } := by
      unfold Soc.stepRv
      dsimp only
      rw [if_neg (by rw [hill]; exact Bool.false_ne_true), emu_op, hop]
      dsimp only [Rtl.Opcode.toEmu]
      rw [if_pos hm, imm_jal _ hop, hx.pc]
    rw [hstep]
    exact hx.agrees_trap hsoft ht rfl
  · rw [if_neg (hmis ▸ hm)] at ht
    have ht' : x.trap = .none := ht
    refine hx.agrees_write hsoft ht' (by simp [Rtl.Cpu.rvMuldiv, hop]) (by simp [hop])
      (by simp [hop]) (by simp [hop]) (v := e.pc + 4#32) (n := e.pc + Emu.immJ x.irReg)
      (r := { Retire.default with cycles := 2 }) ?_ ?_ (csrWr_none (by simp [hop])) rfl rfl rfl ?_
    · rw [hx.rvWriteback, hop]
    · rw [hx.executing.nextPc_of_none ht', hop, hx.pc, ← imm_jal _ hop]
    · unfold Soc.stepRv
      dsimp only
      rw [if_neg (by rw [hill]; exact Bool.false_ne_true), emu_op, hop]
      dsimp only [Rtl.Opcode.toEmu]
      rw [if_neg hm]

theorem AtExecute.rvMemAddr_imm (hx : AtExecute c x e)
    (hop : Rtl.opcode x.irReg = .jalr ∨ Rtl.opcode x.irReg = .load) :
    x.rvMemAddr = e.regs (Emu.rs1 x.irReg) + Emu.immI x.irReg := by
  rw [hx.reg1, Rtl.Cpu.rvMemAddr, ← emu_immI, Rtl.imm]
  rcases hop with hop | hop <;> rw [hop]

/-- JALR. -/
theorem AtExecute.agrees_jalr (hx : AtExecute c x e) (h : Legal x)
    (hop : Rtl.opcode x.irReg = .jalr) (hsoft : (inp 0).softRst = false) :
    Agrees inp x (e.stepRv bus x.irReg none .default).1 (e.stepRv bus x.irReg none .default).2 := by
  have hill := hx.rvIllegal.trans h.legal
  have ht := trap_legal hx.executing h (by simp [hop])
  rw [Rtl.fetchMisalign, Rtl.memMisalign, hop, Rtl.Cpu.memAddrLow_eq] at ht
  dsimp only at ht
  have haddr := hx.rvMemAddr_imm (.inl hop)
  have htarget : Rtl.jalrTarget x.rvMemAddr =
      (e.regs (Emu.rs1 x.irReg) + Emu.immI x.irReg) &&& ~~~1#32 := by
    rw [haddr]
    rfl
  have hmis : (Rtl.jalrTarget x.rvMemAddr &&& 2#32 ≠ 0#32) =
      ((x.rvMemAddr.extractLsb' 0 2).getLsbD 1 = true) := by
    rw [target_and_two, Rtl.jalrTarget]
    simp
  by_cases hm : Rtl.jalrTarget x.rvMemAddr &&& 2#32 ≠ 0#32
  · rw [if_pos (hmis ▸ hm), if_pos rfl] at ht
    have hstep : e.stepRv bus x.irReg none .default =
        e.takeTrap 0#32 (Rtl.jalrTarget x.rvMemAddr) { Retire.default with cycles := 2 } := by
      unfold Soc.stepRv
      dsimp only
      rw [if_neg (by rw [hill]; exact Bool.false_ne_true), emu_op, hop]
      dsimp only [Rtl.Opcode.toEmu]
      rw [← htarget, if_pos hm]
    rw [hstep]
    exact hx.agrees_trap hsoft ht rfl
  · rw [if_neg (hmis ▸ hm)] at ht
    have ht' : x.trap = .none := ht
    refine hx.agrees_write hsoft ht' (by simp [Rtl.Cpu.rvMuldiv, hop]) (by simp [hop])
      (by simp [hop]) (by simp [hop]) (v := e.pc + 4#32) (n := Rtl.jalrTarget x.rvMemAddr)
      (r := { Retire.default with cycles := 2 }) ?_ ?_ (csrWr_none (by simp [hop])) rfl rfl rfl ?_
    · rw [hx.rvWriteback, hop]
    · rw [hx.executing.nextPc_of_none ht', hop]
    · unfold Soc.stepRv
      dsimp only
      rw [if_neg (by rw [hill]; exact Bool.false_ne_true), emu_op, hop]
      dsimp only [Rtl.Opcode.toEmu]
      rw [← htarget, if_neg hm]

/-- Branches. -/
theorem AtExecute.agrees_branch (hx : AtExecute c x e) (h : Legal x)
    (hop : Rtl.opcode x.irReg = .branch) (hsoft : (inp 0).softRst = false) :
    Agrees inp x (e.stepRv bus x.irReg none .default).1 (e.stepRv bus x.irReg none .default).2 := by
  have hill := hx.rvIllegal.trans h.legal
  have ht := trap_legal hx.executing h (by simp [hop])
  rw [Rtl.fetchMisalign, Rtl.memMisalign, hop] at ht
  dsimp only at ht
  have hf3 : Rtl.funct3 x.irReg ≠ 2#3 ∧ Rtl.funct3 x.irReg ≠ 3#3 := by
    have hleg := h.legal
    rw [Rtl.isIllegal, hop] at hleg
    dsimp only at hleg
    generalize Rtl.funct3 x.irReg = f at hleg
    revert f
    decide
  have htake : Emu.branchTake x.irReg (e.regs (Emu.rs1 x.irReg)) (e.regs (Emu.rs2 x.irReg)) =
      Rtl.branchTake (Rtl.funct3 x.irReg) x.rs1Data x.rs2Data := by
    rw [hx.reg1, hx.reg2, branchTake_eq hf3]
  set take := Rtl.branchTake (Rtl.funct3 x.irReg) x.rs1Data x.rs2Data with htk
  have hmis : ((take && decide (e.pc + Emu.immB x.irReg &&& 2#32 ≠ 0#32)) = true) =
      (((Rtl.imm x.irReg).getLsbD 1 && take) = true) := by
    have := target_misaligned hx.pc_aligned (Emu.immB x.irReg)
    rw [← imm_branch _ hop] at this ⊢
    simp only [this, Bool.decide_eq_true, Bool.and_comm]
  by_cases hm : (take && decide (e.pc + Emu.immB x.irReg &&& 2#32 ≠ 0#32)) = true
  · rw [if_pos (hmis ▸ hm), if_neg (by simp)] at ht
    have hstep : e.stepRv bus x.irReg none .default =
        e.takeTrap 0#32 (x.pcReg + Rtl.imm x.irReg) { Retire.default with cycles := 2 } := by
      unfold Soc.stepRv
      dsimp only
      rw [if_neg (by rw [hill]; exact Bool.false_ne_true), emu_op, hop]
      dsimp only [Rtl.Opcode.toEmu]
      rw [htake, if_pos hm, imm_branch _ hop, hx.pc]
    rw [hstep]
    exact hx.agrees_trap hsoft ht rfl
  · rw [if_neg (hmis ▸ hm)] at ht
    have ht' : x.trap = .none := ht
    have hsimple := hx.agrees_simple hsoft ht' (by simp [Rtl.Cpu.rvMuldiv, hop])
      (by simp [hop]) (by simp [hop]) (by simp [hop])
      (n := if take then e.pc + Emu.immB x.irReg else e.pc + 4#32)
      (r := { Retire.default with cycles := 2, branchTaken := some take })
      (by rw [hx.rvWriteback, hop])
      (by rw [hx.executing.nextPc_of_none ht', hop, hx.pc, ← imm_branch _ hop])
      (csrWr_none (by simp [hop])) rfl rfl rfl
    have hstep : e.stepRv bus x.irReg none .default =
        e.retire (if take then e.pc + Emu.immB x.irReg else e.pc + 4#32) true
          { Retire.default with cycles := 2, branchTaken := some take } := by
      unfold Soc.stepRv
      dsimp only
      rw [if_neg (by rw [hill]; exact Bool.false_ne_true), emu_op, hop]
      dsimp only [Rtl.Opcode.toEmu]
      rw [htake, if_neg hm]
    rw [hstep]
    exact hsimple

/-- FENCE. -/
theorem AtExecute.agrees_fence (hx : AtExecute c x e) (h : Legal x)
    (hop : Rtl.opcode x.irReg = .fence) (hsoft : (inp 0).softRst = false) :
    Agrees inp x (e.stepRv bus x.irReg none .default).1 (e.stepRv bus x.irReg none .default).2 := by
  have hill := hx.rvIllegal.trans h.legal
  have ht : x.trap = .none := by
    rw [trap_legal hx.executing h (by simp [hop]), Rtl.fetchMisalign, Rtl.memMisalign, hop]
    rfl
  have hsimple := hx.agrees_simple hsoft ht (by simp [Rtl.Cpu.rvMuldiv, hop])
    (by simp [hop]) (by simp [hop]) (by simp [hop]) (n := e.pc + 4#32)
    (r := { Retire.default with cycles := 2 }) (by rw [hx.rvWriteback, hop])
    (by rw [hx.executing.nextPc_of_none ht, hop, hx.pc]) (csrWr_none (by simp [hop])) rfl rfl rfl
  have hstep : e.stepRv bus x.irReg none .default =
      e.retire (e.pc + 4#32) true { Retire.default with cycles := 2 } := by
    unfold Soc.stepRv
    dsimp only
    rw [if_neg (by rw [hill]; exact Bool.false_ne_true), emu_op, hop]
    rfl
  rw [hstep]
  exact hsimple

/-! ### Data accesses -/

/-- What the bus answers to the load in EXECUTE. -/
theorem Answers.loaded {bus : Bus σ} (hx : AtExecute c x e) (ha : Answers bus e.cycle e.mem inp x)
    (hone : run inp x 1 = x.loadWait) {addr : Word} (haddr : x.rvMemAddr = addr) :
    Waits (fun k ↦ inp (1 + k)) (bus.loadWait addr e.mem).1 ∧
      (inp (1 + (bus.loadWait addr e.mem).1)).dataIn =
        (bus.readWord addr e.cycle (bus.loadWait addr e.mem).2).1 := by
  have hdata : (run inp x 1).dataAddr = addr := by
    rw [hone, ← haddr, Rtl.Cpu.dataAddr, if_pos (show x.loadWait.isRiscvMode = true from
      hx.executing.riscv)]
    rfl
  have h := ha.load (by rw [hone]; rfl) (by rw [hone]; rfl)
  rw [hdata] at h
  exact h

/-- Loads. -/
theorem AtExecute.agrees_load (hx : AtExecute c x e) (h : Legal x)
    (hop : Rtl.opcode x.irReg = .load) (ha : Answers bus e.cycle e.mem inp x)
    (hsoft : Undisturbed inp (e.stepRv bus x.irReg none .default).2) :
    Agrees inp x (e.stepRv bus x.irReg none .default).1 (e.stepRv bus x.irReg none .default).2 := by
  have hill := hx.rvIllegal.trans h.legal
  have ht := trap_legal hx.executing h (by simp [hop])
  have haddr := hx.rvMemAddr_imm (.inr hop)
  have hmis : Emu.misaligned (e.regs (Emu.rs1 x.irReg) + Emu.immI x.irReg) (Emu.funct3 x.irReg) =
      Rtl.memMisalign x.irReg x.memAddrLow := by
    rw [← haddr, emu_funct3, Rtl.memMisalign, hop, Rtl.Cpu.memAddrLow_eq]
    exact misaligned_eq _ _
  rw [Rtl.fetchMisalign, hop, ← hmis] at ht
  dsimp only at ht
  set addr := e.regs (Emu.rs1 x.irReg) + Emu.immI x.irReg with hdef
  by_cases hm : Emu.misaligned addr (Emu.funct3 x.irReg) = true
  · have hstep : e.stepRv bus x.irReg none .default =
        e.takeTrap 4#32 addr { Retire.default with cycles := 2 } := by
      unfold Soc.stepRv
      dsimp only
      rw [if_neg (by rw [hill]; exact Bool.false_ne_true), emu_op, hop]
      dsimp only [Rtl.Opcode.toEmu]
      rw [← hdef, if_pos hm]
    have ht' : x.trap = .entry 4#32 addr := by
      rw [ht, if_neg Bool.false_ne_true, if_pos hm, haddr]
      rfl
    rw [hstep] at hsoft ⊢
    exact hx.agrees_trap (hsoft 0 Nat.one_pos) ht' rfl
  · have ht' : x.trap = .none := by
      rw [ht, if_neg Bool.false_ne_true, if_neg hm]
    set w := (bus.loadWait addr e.mem).1 with hw
    set word := (bus.readWord addr e.cycle (bus.loadWait addr e.mem).2).1 with hword
    set r : Retire := { Retire.default with cycles := 3 + w } with hr
    set v := Emu.loadValue (Emu.funct3 x.irReg) addr word with hv
    set e₁ : Soc σ :=
      { e with mem := (bus.readWord addr e.cycle (bus.loadWait addr e.mem).2).2 } with he₁
    have hstep : e.stepRv bus x.irReg none .default =
        (e₁.writeRd (Emu.rd x.irReg) v r).1.retire (e.pc + 4#32) true
          (e₁.writeRd (Emu.rd x.irReg) v r).2 := by
      unfold Soc.stepRv
      dsimp only
      rw [if_neg (by rw [hill]; exact Bool.false_ne_true), emu_op, hop]
      dsimp only [Rtl.Opcode.toEmu]
      rw [← hdef, if_neg hm]
    obtain ⟨h1, h2, h3⟩ := writeRd_snd e₁ (Emu.rd x.irReg) v r
    rw [hstep, retire_writeRd] at hsoft ⊢
    have hlen : (e₁.writeRd (Emu.rd x.irReg) v r).2.cycles = w + 3 := h2.trans (Nat.add_comm 3 w)
    have hsoft' : ∀ k < w + 2, (inp k).softRst = false := fun k hk ↦
      hsoft k (by rw [hlen]; omega)
    have hone : run inp x 1 = x.loadWait :=
      hx.executing.tick_load (hsoft' 0 (by omega)) ht' (.inl hop)
    obtain ⟨hwaits, hdata⟩ := ha.loaded hx hone haddr
    have hends := hx.executing.ends_load ht' (.inl hop) hwaits hsoft'
    have hval : Rtl.loadVal (Rtl.funct3 x.irReg) x.memAddrLow (inp (1 + w)).dataIn = v := by
      rw [hv, emu_funct3, loadValue_eq, ← haddr, ← Rtl.Cpu.memAddrLow_eq]
      exact congrArg _ hdata
    rw [← hw, hval, if_pos hop, ← hx.reservation, ← hx.pc, ← emu_rd] at hends
    exact hx.agrees_done hends hlen h1 h3 (by simp [cost, hop])

/-- What the bus answers to the store in EXECUTE. -/
theorem Answers.stored {bus : Bus σ} (hx : AtExecute c x e) (ha : Answers bus e.cycle e.mem inp x)
    (hone : run inp x 1 = x.storeWait) :
    Waits (fun k ↦ inp (1 + k)) (bus.write x.rvMemAddr x.rDataOut x.rMemByteWe e.cycle e.mem).1 :=
  ha.store _ _ _ (by
    rw [hone, Rtl.Cpu.storeReq_store (y := x.storeWait) hx.executing.riscv rfl rfl]
    rfl)

/-- Stores. -/
theorem AtExecute.agrees_store (hx : AtExecute c x e) (h : Legal x)
    (hop : Rtl.opcode x.irReg = .store) (ha : Answers bus e.cycle e.mem inp x)
    (hsoft : Undisturbed inp (e.stepRv bus x.irReg none .default).2) :
    Agrees inp x (e.stepRv bus x.irReg none .default).1 (e.stepRv bus x.irReg none .default).2 := by
  have hill := hx.rvIllegal.trans h.legal
  have ht := trap_legal hx.executing h (by simp [hop])
  have haddr : x.rvMemAddr = e.regs (Emu.rs1 x.irReg) + Emu.immS x.irReg := by
    rw [hx.reg1, Rtl.Cpu.rvMemAddr, imm_store _ hop]
  have hmis : Emu.misaligned (e.regs (Emu.rs1 x.irReg) + Emu.immS x.irReg) (Emu.funct3 x.irReg) =
      Rtl.memMisalign x.irReg x.memAddrLow := by
    rw [← haddr, emu_funct3, Rtl.memMisalign, hop, Rtl.Cpu.memAddrLow_eq]
    exact misaligned_eq _ _
  rw [Rtl.fetchMisalign, hop, ← hmis] at ht
  dsimp only at ht
  set addr := e.regs (Emu.rs1 x.irReg) + Emu.immS x.irReg with hdef
  by_cases hm : Emu.misaligned addr (Emu.funct3 x.irReg) = true
  · have hstep : e.stepRv bus x.irReg none .default =
        e.takeTrap 6#32 addr { Retire.default with cycles := 2 } := by
      unfold Soc.stepRv
      dsimp only
      rw [if_neg (by rw [hill]; exact Bool.false_ne_true), emu_op, hop]
      dsimp only [Rtl.Opcode.toEmu]
      rw [← hdef, if_pos hm]
    have ht' : x.trap = .entry 6#32 addr := by
      rw [ht, if_neg Bool.false_ne_true, if_pos hm, haddr]
      rfl
    rw [hstep] at hsoft ⊢
    exact hx.agrees_trap (hsoft 0 Nat.one_pos) ht' rfl
  · have ht' : x.trap = .none := by
      rw [ht, if_neg Bool.false_ne_true, if_neg hm]
    set lanes := Emu.storeLanes (Emu.funct3 x.irReg) addr (e.regs (Emu.rs2 x.irReg)) with hlanes
    set w := (bus.write addr lanes.1 lanes.2 e.cycle e.mem).1 with hw
    have hstep : e.stepRv bus x.irReg none .default =
        Soc.retire { e with mem := (bus.write addr lanes.1 lanes.2 e.cycle e.mem).2 } (e.pc + 4#32)
          true { Retire.default with cycles := 3 + w, store := some (addr, lanes.1, lanes.2) } := by
      unfold Soc.stepRv
      dsimp only
      rw [if_neg (by rw [hill]; exact Bool.false_ne_true), emu_op, hop]
      dsimp only [Rtl.Opcode.toEmu]
      rw [← hdef, if_neg hm]
    have hdrive : x.rDataOut = lanes.1 ∧ x.rMemByteWe = lanes.2 := by
      have heq : lanes = (x.rDataOut, x.rMemByteWe) := by
        rw [hlanes, emu_funct3, storeLanes_eq, hx.reg2, ← haddr, ← Rtl.Cpu.memAddrLow_eq,
          Rtl.Cpu.rDataOut, Rtl.Cpu.rMemByteWe, hx.executing.riscv, hop]
        rfl
      rw [heq]
      exact ⟨rfl, rfl⟩
    rw [hstep] at hsoft ⊢
    have hsoft' : ∀ k < w + 2, (inp k).softRst = false := fun k hk ↦ hsoft k (by
      change k < 3 + w - 1
      omega)
    have hwaits := ha.stored hx (hx.executing.tick_store (hsoft' 0 (by omega)) ht' (.inl hop))
    rw [haddr, hdrive.1, hdrive.2, ← hw] at hwaits
    have hends := hx.executing.ends_store ht' (.inl hop) hwaits hsoft'
    rw [if_pos hop, if_pos hop, haddr, hdrive.1, hdrive.2, ← hx.reservation, ← hx.pc] at hends
    exact hx.agrees_done hends (Nat.add_comm 3 w) rfl rfl (by simp [cost, hop])

/-! ### RV32A -/

theorem extract_append_low {a : Word} (ha : Rtl.Aligned a) : a.extractLsb' 2 30 ++ 0#2 = a := by
  have h := congrArg BitVec.toNat ha
  apply BitVec.eq_of_toNat_eq
  have hlt := a.isLt
  rw [BitVec.toNat_append, BitVec.extractLsb'_toNat, BitVec.toNat_ofNat, Nat.zero_mod, Nat.or_zero,
    Nat.shiftLeft_eq, Nat.shiftRight_eq_div_pow]
  rw [BitVec.extractLsb'_toNat, Nat.shiftRight_zero, BitVec.toNat_ofNat] at h
  omega

/-- A store-conditional to an aligned address has its reservation on both sides or on none. -/
theorem AtExecute.reserved (hx : AtExecute c x e) (ha : Rtl.Aligned x.rs1Data) :
    e.reservation = some x.rs1Data ↔ x.amoScOk = true := by
  rw [hx.reservation, Rtl.Cpu.reservation, Rtl.Cpu.amoScOk, Bool.and_eq_true, decide_eq_true_eq]
  cases x.resvValid with
  | false => simp
  | true =>
    simp only [if_true, true_and, Option.some.injEq]
    constructor
    · intro h
      rw [← h]
      apply BitVec.eq_of_toNat_eq
      have hlt := x.resvAddr.isLt
      rw [BitVec.extractLsb'_toNat, BitVec.toNat_append, BitVec.toNat_ofNat, Nat.zero_mod,
        Nat.or_zero, Nat.shiftLeft_eq, Nat.shiftRight_eq_div_pow]
      omega
    · intro h
      rw [h, extract_append_low ha]

/-- An A-extension instruction in EXECUTE that is legal: `a` is its operation. -/
structure Amo (x : Cpu) (a : Emu.AmoOp) : Prop where
  opcode : Rtl.opcode x.irReg = .amo
  funct3 : Rtl.funct3 x.irReg = 2#3
  op : Emu.amoOp x.irReg = some a

theorem Legal.amo (h : Legal x) (hop : Rtl.opcode x.irReg = .amo) : ∃ a, Amo x a := by
  have hleg := h.legal
  rw [Rtl.isIllegal, hop] at hleg
  dsimp only at hleg
  rw [← amoOp_isNone, Bool.or_eq_false_iff, Bool.or_eq_false_iff] at hleg
  obtain ⟨⟨hf3, -⟩, hsome⟩ := hleg
  rw [← emu_funct5, Option.isNone_eq_false_iff, Option.isSome_iff_exists] at hsome
  obtain ⟨a, ha⟩ := hsome
  exact ⟨a, hop, by simpa using hf3, ha⟩

section

variable {a : Emu.AmoOp}

theorem Amo.isLr (h : Amo x a) : x.amoIsLr = decide (a = .lr) := by
  have hlr := amoOp_lr (Rtl.funct5 x.irReg)
  rw [← emu_funct5, show Emu.AmoOp.of (x.irReg >>> 27) = some a from h.op] at hlr
  rw [Rtl.Cpu.amoIsLr, ← hlr]
  simp

theorem Amo.isSc (h : Amo x a) : x.amoIsSc = decide (a = .sc) := by
  have hsc := amoOp_sc (Rtl.funct5 x.irReg)
  rw [← emu_funct5, show Emu.AmoOp.of (x.irReg >>> 27) = some a from h.op] at hsc
  rw [Rtl.Cpu.amoIsSc, ← hsc]
  simp

theorem Amo.addr (h : Amo x a) : x.rvMemAddr = x.rs1Data := by
  rw [Rtl.Cpu.rvMemAddr, Rtl.imm, h.opcode]
  exact BitVec.add_zero _

theorem Amo.rDataOut (h : Amo x a) (hr : x.isRiscvMode = true) : x.rDataOut = x.rs2Data := by
  rw [Rtl.Cpu.rDataOut, if_pos hr, if_neg (by simp [h.opcode])]

theorem Amo.rMemByteWe (h : Amo x a) : x.rMemByteWe = 0b1111#4 := by
  rw [Rtl.Cpu.rMemByteWe, if_neg (by simp [h.opcode])]

/-- Where an A-extension instruction traps, and that it traps nowhere else. -/
theorem Amo.trap (h : Amo x a) (hx : x.Executing) (hl : Legal x) : x.trap =
    if Rtl.Aligned x.rs1Data then .none
    else .entry (if a = .lr then 4#32 else 6#32) x.rs1Data := by
  have ht := trap_legal hx hl (by simp [h.opcode])
  have hlr : Rtl.isLr (Rtl.funct5 x.irReg) = decide (a = .lr) := h.isLr
  rw [Rtl.fetchMisalign, Rtl.memMisalign, h.opcode, Rtl.Cpu.memAddrLow_eq, h.addr, hlr] at ht
  rw [ht]
  unfold Rtl.Aligned
  by_cases hal : x.rs1Data.extractLsb' 0 2 = 0#2
  · simp [hal]
  · simp [hal]

end

theorem aligned_iff (v : Word) : Rtl.Aligned v ↔ v &&& 3#32 = 0#32 := by
  have h3 : v &&& 3#32 = (v.extractLsb' 0 2).setWidth 32 := and_low v 2 (by decide)
  rw [h3, Rtl.Aligned]
  generalize v.extractLsb' 0 2 = low
  revert low
  decide

/-- The RV32A step of the emulator, once legality is settled. -/
theorem AtExecute.stepRv_amo (hx : AtExecute c x e) (h : Legal x)
    (hop : Rtl.opcode x.irReg = .amo) : e.stepRv bus x.irReg none .default =
    match e.execAmo bus x.irReg { Retire.default with cycles := 2 } with
    | .inl cause => e.takeTrap cause x.rs1Data { Retire.default with cycles := 2 }
    | .inr p => p.1.retire (e.pc + 4#32) true p.2 := by
  have hill := hx.rvIllegal.trans h.legal
  unfold Soc.stepRv
  dsimp only
  rw [if_neg (by rw [hill]; exact Bool.false_ne_true), emu_op, hop]
  dsimp only [Rtl.Opcode.toEmu]
  rw [hx.reg1]
  cases e.execAmo bus x.irReg { Retire.default with cycles := 2 } <;> rfl

theorem AtExecute.agrees_sc (hx : AtExecute c x e) (h : Legal x) (hamo : Amo x .sc)
    (hal : Rtl.Aligned x.rs1Data) (ha : Answers bus e.cycle e.mem inp x)
    (hsoft : Undisturbed inp (e.stepRv bus x.irReg none .default).2) :
    Agrees inp x (e.stepRv bus x.irReg none .default).1 (e.stepRv bus x.irReg none .default).2 := by
  have ht : x.trap = .none := by
    rw [hamo.trap hx.executing h, if_pos hal]
  have hsc : x.amoIsSc = true := by
    rw [hamo.isSc]
    rfl
  have hstep := hx.stepRv_amo bus h hamo.opcode
  unfold Soc.execAmo at hstep
  dsimp only at hstep
  rw [hx.reg1, hx.reg2, if_neg (by simpa using (aligned_iff _).mp hal), hamo.op] at hstep
  dsimp only at hstep
  by_cases hres : e.reservation = some x.rs1Data
  · set w := (bus.write x.rs1Data x.rs2Data 0b1111#4 e.cycle e.mem).1 with hw
    set r : Retire := { Retire.default with
      cycles := 3 + w, store := some (x.rs1Data, x.rs2Data, 0b1111#4) } with hr
    set e₁ : Soc σ := { e with
      reservation := none
      mem := (bus.write x.rs1Data x.rs2Data 0b1111#4 e.cycle e.mem).2 } with he₁
    rw [if_pos hres] at hstep
    replace hstep : e.stepRv bus x.irReg none .default =
      (e₁.writeRd (Emu.rd x.irReg) 0#32 r).1.retire (e.pc + 4#32) true
        (e₁.writeRd (Emu.rd x.irReg) 0#32 r).2 := hstep
    obtain ⟨h1, h2, h3⟩ := writeRd_snd e₁ (Emu.rd x.irReg) 0#32 r
    rw [hstep, retire_writeRd] at hsoft ⊢
    have hlen := h2.trans (Nat.add_comm 3 w)
    have hsoft' : ∀ k < w + 2, (inp k).softRst = false := fun k hk ↦
      hsoft k (by rw [hlen]; omega)
    have hok := (hx.reserved hal).mp hres
    have hkind : Rtl.opcode x.irReg = .store ∨
        (Rtl.opcode x.irReg = .amo ∧ x.amoIsSc = true ∧ x.amoScOk = true) :=
      .inr ⟨hamo.opcode, hsc, hok⟩
    have hwaits := ha.stored hx (hx.executing.tick_store (hsoft' 0 (by omega)) ht hkind)
    rw [hamo.addr, hamo.rDataOut hx.executing.riscv, hamo.rMemByteWe, ← hw] at hwaits
    have hends := hx.executing.ends_store ht hkind hwaits hsoft'
    rw [if_neg (by simp [hamo.opcode]), if_neg (by simp [hamo.opcode]), hamo.addr,
      hamo.rDataOut hx.executing.riscv, hamo.rMemByteWe, ← hx.pc, ← emu_rd] at hends
    have hsc' : Rtl.isSc (Rtl.funct5 x.irReg) = true := hsc
    exact hx.agrees_done hends hlen h1 h3 (by simp [cost, hamo.opcode, hsc', hok])
  · set r : Retire := { Retire.default with cycles := 2 } with hr
    set e₁ : Soc σ := { e with reservation := none } with he₁
    rw [if_neg hres] at hstep
    replace hstep : e.stepRv bus x.irReg none .default =
      (e₁.writeRd (Emu.rd x.irReg) 1#32 r).1.retire (e.pc + 4#32) true
        (e₁.writeRd (Emu.rd x.irReg) 1#32 r).2 := hstep
    obtain ⟨h1, h2, h3⟩ := writeRd_snd e₁ (Emu.rd x.irReg) 1#32 r
    rw [hstep, retire_writeRd] at hsoft ⊢
    have hok : x.amoScOk = false := by
      rw [← Bool.not_eq_true]
      exact mt (hx.reserved hal).mpr hres
    have hends := hx.executing.ends_scFailed (hsoft 0 (by rw [h2]; exact Nat.one_pos)) ht
      hamo.opcode hsc hok
    have hzero : x.csrs = x.csrs.elapse 0 := by
      simp [Rtl.Csrs.elapse]
    rw [← hx.pc, ← emu_rd, hzero] at hends
    have hsc' : Rtl.isSc (Rtl.funct5 x.irReg) = true := hsc
    exact hx.agrees_done hends h2 h1 h3 (by simp [cost, hamo.opcode, hsc', hok])

theorem AtExecute.agrees_lr (hx : AtExecute c x e) (h : Legal x) (hamo : Amo x .lr)
    (hal : Rtl.Aligned x.rs1Data) (ha : Answers bus e.cycle e.mem inp x)
    (hsoft : Undisturbed inp (e.stepRv bus x.irReg none .default).2) :
    Agrees inp x (e.stepRv bus x.irReg none .default).1 (e.stepRv bus x.irReg none .default).2 := by
  have ht : x.trap = .none := by
    rw [hamo.trap hx.executing h, if_pos hal]
  have hlr : x.amoIsLr = true := by
    rw [hamo.isLr]
    rfl
  have hsc : x.amoIsSc = false := by
    rw [hamo.isSc]
    rfl
  have hstep := hx.stepRv_amo bus h hamo.opcode
  unfold Soc.execAmo at hstep
  dsimp only at hstep
  rw [hx.reg1, hx.reg2, if_neg (by simpa using (aligned_iff _).mp hal), hamo.op] at hstep
  dsimp only at hstep
  set w := (bus.loadWait x.rs1Data e.mem).1 with hw
  set word := (bus.readWord x.rs1Data e.cycle (bus.loadWait x.rs1Data e.mem).2).1 with hword
  set r : Retire := { Retire.default with cycles := 3 + w } with hr
  set e₁ : Soc σ := { e with
    reservation := some x.rs1Data
    mem := (bus.readWord x.rs1Data e.cycle (bus.loadWait x.rs1Data e.mem).2).2 } with he₁
  replace hstep : e.stepRv bus x.irReg none .default =
    (e₁.writeRd (Emu.rd x.irReg) word r).1.retire (e.pc + 4#32) true
      (e₁.writeRd (Emu.rd x.irReg) word r).2 := hstep
  obtain ⟨h1, h2, h3⟩ := writeRd_snd e₁ (Emu.rd x.irReg) word r
  rw [hstep, retire_writeRd] at hsoft ⊢
  have hlen := h2.trans (Nat.add_comm 3 w)
  have hsoft' : ∀ k < w + 2, (inp k).softRst = false := fun k hk ↦
    hsoft k (by rw [hlen]; omega)
  obtain ⟨hwaits, hdata⟩ := ha.loaded hx
    (hx.executing.tick_load (hsoft' 0 (by omega)) ht (.inr ⟨hamo.opcode, hsc⟩)) hamo.addr
  have hends := hx.executing.ends_load ht (.inr ⟨hamo.opcode, hlr⟩) hwaits hsoft'
  have hval : Rtl.loadVal (Rtl.funct3 x.irReg) x.memAddrLow (inp (1 + w)).dataIn = word := by
    rw [hamo.funct3]
    exact hdata
  rw [← hw, hval, if_neg (by simp [hamo.opcode]), extract_append_low hal, ← hx.pc, ← emu_rd]
    at hends
  have hlr' : Rtl.isLr (Rtl.funct5 x.irReg) = true := hlr
  have hsc' : Rtl.isSc (Rtl.funct5 x.irReg) = false := hsc
  exact hx.agrees_done hends hlen h1 h3 (by simp [cost, hamo.opcode, hsc', hlr'])

/-- The new value of an AMO. -/
theorem Amo.result {a : Emu.AmoOp} (hamo : Amo x a) (hlr : a ≠ .lr) (hsc : a ≠ .sc) (d : Word) :
    x.amoResult d = Emu.amoValue a d x.rs2Data := by
  have hcode := code_of_amoOp (a := a) (by
    rw [← emu_funct5]
    exact hamo.op)
  rw [Rtl.Cpu.amoResult, hcode, ← amoValue_eq hlr hsc]

theorem AtExecute.agrees_rmw {a : Emu.AmoOp} (hx : AtExecute c x e) (h : Legal x) (hamo : Amo x a)
    (hlr : a ≠ .lr) (hsc : a ≠ .sc) (hal : Rtl.Aligned x.rs1Data)
    (ha : Answers bus e.cycle e.mem inp x)
    (hsoft : Undisturbed inp (e.stepRv bus x.irReg none .default).2) :
    Agrees inp x (e.stepRv bus x.irReg none .default).1 (e.stepRv bus x.irReg none .default).2 := by
  have ht : x.trap = .none := by
    rw [hamo.trap hx.executing h, if_pos hal]
  have hlr' : x.amoIsLr = false := by
    rw [hamo.isLr, decide_eq_false hlr]
  have hsc' : x.amoIsSc = false := by
    rw [hamo.isSc, decide_eq_false hsc]
  set w := (bus.loadWait x.rs1Data e.mem).1 with hw
  set word := (bus.readWord x.rs1Data e.cycle (bus.loadWait x.rs1Data e.mem).2).1 with hword
  set mem₁ := (bus.readWord x.rs1Data e.cycle (bus.loadWait x.rs1Data e.mem).2).2 with hmem₁
  set new := Emu.amoValue a word x.rs2Data with hnew
  set v := (bus.write x.rs1Data new 0b1111#4 (e.cycle + (3 + w)) mem₁).1 with hv
  set r : Retire := { Retire.default with
    cycles := 3 + w + (2 + v), store := some (x.rs1Data, new, 0b1111#4) } with hr
  set e₁ : Soc σ := { e with
    mem := (bus.write x.rs1Data new 0b1111#4 (e.cycle + (3 + w)) mem₁).2 } with he₁
  have hstep : e.stepRv bus x.irReg none .default =
      (e₁.writeRd (Emu.rd x.irReg) word r).1.retire (e.pc + 4#32) true
        (e₁.writeRd (Emu.rd x.irReg) word r).2 := by
    have hstep := hx.stepRv_amo bus h hamo.opcode
    unfold Soc.execAmo at hstep
    dsimp only at hstep
    rw [hx.reg1, hx.reg2, if_neg (by simpa using (aligned_iff _).mp hal), hamo.op] at hstep
    rw [hstep]
    cases a with
    | lr => exact absurd rfl hlr
    | sc => exact absurd rfl hsc
    | _ => rfl
  obtain ⟨h1, h2, h3⟩ := writeRd_snd e₁ (Emu.rd x.irReg) word r
  rw [hstep, retire_writeRd] at hsoft ⊢
  have hlen : (e₁.writeRd (Emu.rd x.irReg) word r).2.cycles = w + v + 3 + 2 := by
    rw [h2]
    change 3 + w + (2 + v) = _
    omega
  have hsoft' : ∀ k < w + v + 4, (inp k).softRst = false := fun k hk ↦
    hsoft k (by rw [hlen]; omega)
  have hone : run inp x 1 = x.loadWait :=
    hx.executing.tick_load (hsoft' 0 (by omega)) ht (.inr ⟨hamo.opcode, hsc'⟩)
  obtain ⟨hwaits, hdata⟩ := ha.loaded hx hone hamo.addr
  rw [← hw, ← hword] at hdata
  obtain ⟨-, -, hstoring⟩ := hx.executing.run_amo ht hamo.opcode hlr' hsc' hwaits fun k hk ↦
    hsoft' k (by omega)
  rw [← hw, hdata] at hstoring
  have hreq : (run inp x (w + 3)).storeReq = some (x.rs1Data, new, 0b1111#4) := by
    rw [hstoring, Rtl.Cpu.storeReq_store (y := x.amoStoring w word) hx.executing.riscv rfl rfl,
      hnew, ← hamo.result hlr hsc, ← hamo.addr]
    rfl
  have haddr : (run inp x 1).dataAddr = x.rs1Data := by
    rw [hone, ← hamo.addr, Rtl.Cpu.dataAddr, if_pos (show x.loadWait.isRiscvMode = true from
      hx.executing.riscv)]
    rfl
  have hv' :=
    ha.amo (by rw [hone]; rfl) (by rw [hone]; rfl) w (bus.loadWait x.rs1Data e.mem).2 _ _ _
    (by rw [haddr]) hreq
  rw [haddr, ← hmem₁, ← hv] at hv'
  have hends := hx.executing.ends_amo ht hamo.opcode hlr' hsc' hwaits hv' hsoft'
  rw [← hw, hdata, hamo.addr, hamo.result hlr hsc, ← hnew, ← hx.reservation, ← hx.pc, ← emu_rd]
    at hends
  have hlr₅ : Rtl.isLr (Rtl.funct5 x.irReg) = false := hlr'
  have hsc₅ : Rtl.isSc (Rtl.funct5 x.irReg) = false := hsc'
  exact hx.agrees_done hends hlen h1 h3 (by simp [cost, hamo.opcode, hsc₅, hlr₅])

/-- RV32A. -/
theorem AtExecute.agrees_amo (hx : AtExecute c x e) (h : Legal x)
    (hop : Rtl.opcode x.irReg = .amo) (ha : Answers bus e.cycle e.mem inp x)
    (hsoft : Undisturbed inp (e.stepRv bus x.irReg none .default).2) :
    Agrees inp x (e.stepRv bus x.irReg none .default).1 (e.stepRv bus x.irReg none .default).2 := by
  obtain ⟨a, hamo⟩ := h.amo hop
  by_cases hal : Rtl.Aligned x.rs1Data
  · by_cases hsc : a = .sc
    · exact hx.agrees_sc bus h (hsc ▸ hamo) hal ha hsoft
    · by_cases hlr : a = .lr
      · exact hx.agrees_lr bus h (hlr ▸ hamo) hal ha hsoft
      · exact hx.agrees_rmw bus h hamo hlr hsc hal ha hsoft
  · have ht := hamo.trap hx.executing h
    rw [if_neg hal] at ht
    have hstep : e.stepRv bus x.irReg none .default =
        e.takeTrap (if a = .lr then 4#32 else 6#32) x.rs1Data
          { Retire.default with cycles := 2 } := by
      rw [hx.stepRv_amo bus h hop]
      unfold Soc.execAmo
      dsimp only
      rw [hx.reg1, if_pos (mt (aligned_iff _).mpr hal), hamo.op]
      simp only [Option.some.injEq]
    rw [hstep] at hsoft ⊢
    exact hx.agrees_trap (hsoft 0 Nat.one_pos) ht rfl

/-! ### SYSTEM -/

/-- The write of `exec_csr`, and whether the instruction counts in `minstret`. -/
def csrWritten (e : Soc σ) (addr : BitVec 16) (v : Word) : Bool × Soc σ :=
  match addr.toNat with
  | 0xB00 | 0xB80 => (true, { e with
      mcycleWritten := some ({ e.csr with mcycle := e.csr.mcycle + 1#64 }.write addr v).mcycle })
  | 0xB02 | 0xB82 => (false, { e with csr := e.csr.write addr v })
  | 0x300 => (true, { e with csr := (e.csr.write addr v).writeMpp v })
  | _ => (true, { e with csr := e.csr.write addr v })

/-- A CSR other than a counter is written whatever the counters are. -/
theorem write_counters {addr : BitVec 16} (hc : addr.toNat ≠ 0xB00) (hch : addr.toNat ≠ 0xB80)
    (hi : addr.toNat ≠ 0xB02) (hih : addr.toNat ≠ 0xB82) (c : Emu.Csrs) (v : Word)
    (mcycle minstret : BitVec 64) :
    { c.write addr v with mcycle := mcycle, minstret := minstret } =
      { c with mcycle := mcycle, minstret := minstret }.write addr v ∧
    (c.write addr v).mcycle = c.mcycle ∧ (c.write addr v).minstret = c.minstret := by
  unfold Emu.Csrs.write
  generalize addr.toNat = n at hc hch hi hih
  split
  all_goals first
    | exact absurd rfl hc
    | exact absurd rfl hch
    | exact absurd rfl hi
    | exact absurd rfl hih
    | exact ⟨rfl, rfl, rfl⟩

theorem AtExecute.csr_written (hx : AtExecute c x e) (addr : BitVec 12) (v : Word) :
    (((csrWritten e (addr.setWidth 16) v).2.retire (e.pc + 4#32)
        (csrWritten e (addr.setWidth 16) v).1 .default).1.endStep 2).csr =
      ((x.csrs.count (some addr) true).write addr v).toEmu := by
  have hcsr : e.csr = c.toEmu := hx.csr
  have hcount : ∀ wr, (x.csrs.count wr true).toEmu =
      { e.csr with
        mcycle := if wr = some 0xB00#12 ∨ wr = some 0xB80#12 then e.csr.mcycle + 1#64
          else e.csr.mcycle + 2#64
        minstret := if wr = some 0xB02#12 ∨ wr = some 0xB82#12 then e.csr.minstret
          else e.csr.minstret + 1#64 } := by
    intro wr
    rw [hx.elapsed, hcsr]
    unfold Rtl.Csrs.count Rtl.Csrs.elapse Rtl.Csrs.toEmu
    simp only [BitVec.add_assoc]
    rfl
  by_cases hmcycle : addr = 0xB00#12 ∨ addr = 0xB80#12
  · rw [Rtl.Csrs.toEmu_write _ (by rcases hmcycle with rfl | rfl <;> decide), hcount]
    rcases hmcycle with rfl | rfl <;> rfl
  by_cases hminstret : addr = 0xB02#12 ∨ addr = 0xB82#12
  · rw [Rtl.Csrs.toEmu_write _ (by rcases hminstret with rfl | rfl <;> decide), hcount]
    unfold Soc.endStep
    rcases hminstret with rfl | rfl <;>
    · change Emu.Csrs.mk _ _ _ _ _ _ _ (Option.getD e.mcycleWritten _) _ _ _ = _
      rw [hx.written]
      rfl
  by_cases hmstatus : addr = 0x300#12
  · rw [hmstatus, Rtl.Csrs.toEmu_write_mstatus, hcount]
    unfold Soc.endStep
    change Emu.Csrs.mk _ _ _ _ _ _ _ (Option.getD e.mcycleWritten _) _ _ _ = _
    rw [hx.written]
    rfl
  · rw [Rtl.Csrs.toEmu_write _ hmstatus, hcount, if_neg (by simpa using hmcycle),
      if_neg (by simpa using hminstret)]
    have hne : ∀ k : BitVec 12, addr ≠ k → (addr.setWidth 16).toNat ≠ k.toNat := by
      intro k hk heq
      rw [Rtl.Csrs.toNat_csr] at heq
      exact hk (BitVec.eq_of_toNat_eq heq)
    rw [not_or] at hmcycle hminstret
    have hb00 := hne 0xB00#12 hmcycle.1
    have hb80 := hne 0xB80#12 hmcycle.2
    have hb02 := hne 0xB02#12 hminstret.1
    have hb82 := hne 0xB82#12 hminstret.2
    have h300 := hne 0x300#12 hmstatus
    have hcw : csrWritten e (addr.setWidth 16) v =
        (true, { e with csr := e.csr.write (addr.setWidth 16) v }) := by
      unfold csrWritten
      generalize (addr.setWidth 16).toNat = n at hb00 hb80 hb02 hb82 h300
      split
      all_goals first
        | exact absurd rfl hb00
        | exact absurd rfl hb80
        | exact absurd rfl hb02
        | exact absurd rfl hb82
        | exact absurd rfl h300
        | rfl
    obtain ⟨hwrite, hm, hn⟩ := write_counters hb00 hb80 hb02 hb82 e.csr v (e.csr.mcycle + 2#64)
      (e.csr.minstret + 1#64)
    rw [hcw, ← hwrite]
    unfold Soc.endStep Soc.retire
    change Emu.Csrs.mk _ _ _ _ _ _ _ (Option.getD e.mcycleWritten _) _ _ _ = _
    rw [hx.written]
    change Emu.Csrs.mk _ _ _ _ _ _ _ ((e.csr.write (addr.setWidth 16) v).mcycle + 2#64)
      ((e.csr.write (addr.setWidth 16) v).minstret + 1#64) _ _ = _
    rw [hm, hn]
    rfl

/-- A SYSTEM instruction with `funct3` not 0 is a CSR instruction, and does not trap if legal. -/
theorem trap_csr (hx : x.Executing) (h : Legal x) (hop : Rtl.opcode x.irReg = .system)
    (hf3 : Rtl.funct3 x.irReg ≠ 0#3) : x.trap = .none := by
  have hno : ∀ b : Bool, (b = true → Rtl.funct3 x.irReg = 0#3) → b = false := by
    intro b hb
    by_contra hne
    exact hf3 (hb (by simpa using hne))
  have hecall := hno _ fun h ↦ (opcode_of_eq (.inl h)).2
  have hebreak := hno _ fun h ↦ (opcode_of_eq (.inr (.inl h))).2
  have hmret := hno _ fun h ↦ (opcode_of_eq (.inr (.inr h))).2
  rw [Rtl.Cpu.trap, if_pos hx.execRv, Rtl.trapUnit, h.irq, h.legal, hecall, hebreak, hmret,
    Rtl.fetchMisalign, Rtl.memMisalign, hop]
  rfl

/-- What a CSR instruction reads. -/
theorem AtExecute.csr_read (hx : AtExecute c x e) {i : CpuIn} {mip : Word} {mtime : BitVec 64}
    (hmip : mip = i.lines.mip) (hmtime : mtime = i.mtime) :
    (let old := { e.csr with mcycle := e.csr.mcycle + 1#64 }.read (Emu.csrAddr x.irReg) mip mtime
      if Emu.csrAddr x.irReg = 0x301#16 && !e.mExt then old &&& ~~~Emu.misaM else old) =
      x.csrRdata i := by
  have hcsr : { e.csr with mcycle := e.csr.mcycle + 1#64 } = x.csrs.toEmu := by
    rw [hx.csr, hx.elapsed]
    rfl
  dsimp only
  rw [hx.mExt, hcsr, hmip, hmtime, emu_csrAddr, Rtl.Csrs.toEmu_read]
  simp [Rtl.Cpu.csrRdata]

/-- `value` of `exec_csr`. -/
def csrValue (e : Soc σ) (i old : Word) : Word :=
  let src := if Emu.funct3 i &&& 4#32 ≠ 0#32 then (Emu.rs1 i).setWidth 32 else e.regs (Emu.rs1 i)
  match (Emu.funct3 i &&& 3#32).toNat with
  | 1 => src
  | 2 => old ||| src
  | _ => old &&& ~~~src

/-- What it writes. -/
theorem AtExecute.csr_value (hx : AtExecute c x e) (h : Legal x)
    (hop : Rtl.opcode x.irReg = .system) (hf3 : Rtl.funct3 x.irReg ≠ 0#3) (old : Word) :
    csrValue e x.irReg old = Rtl.Csrs.writeVal (Rtl.funct3 x.irReg) old
      (if (Rtl.funct3 x.irReg).getLsbD 2 then Rtl.uimm x.irReg else x.rs1Data) := by
  have hf4 : Rtl.funct3 x.irReg ≠ 4#3 := by
    have hleg := h.legal
    rw [Rtl.isIllegal, hop] at hleg
    dsimp only at hleg
    rw [if_neg hf3] at hleg
    intro h4
    rw [h4] at hleg
    exact absurd hleg (by simp)
  unfold csrValue
  rw [emu_uimm, hx.reg1, emu_funct3]
  rcases bitVec3_cases (Rtl.funct3 x.irReg) with h3 | h3 | h3 | h3 | h3 | h3 | h3 | h3
  · exact absurd h3 hf3
  · rw [h3]; rfl
  · rw [h3]; rfl
  · rw [h3]; rfl
  · exact absurd h3 hf4
  · rw [h3]; rfl
  · rw [h3]; rfl
  · rw [h3]; rfl

/-- CSR instructions. -/
theorem AtExecute.agrees_csr (hx : AtExecute c x e) (h : Legal x)
    (hop : Rtl.opcode x.irReg = .system) (hf3 : Rtl.funct3 x.irReg ≠ 0#3)
    (ha : Answers bus e.cycle e.mem inp x) (hsoft : (inp 0).softRst = false) :
    Agrees inp x (e.stepRv bus x.irReg none .default).1 (e.stepRv bus x.irReg none .default).2 := by
  have hill := hx.rvIllegal.trans h.legal
  have ht := trap_csr hx.executing h hop hf3
  have hread := hx.csr_read (ha.mip hop) (ha.mtime hop)
  have hvalue := hx.csr_value h hop hf3 (x.csrRdata (inp 0))
  have hf3' : ¬Emu.funct3 x.irReg = 0#32 := by
    rw [emu_funct3]
    generalize Rtl.funct3 x.irReg = f at hf3
    revert f
    decide
  set v := Rtl.Csrs.writeVal (Rtl.funct3 x.irReg) (x.csrRdata (inp 0))
    (if (Rtl.funct3 x.irReg).getLsbD 2 then Rtl.uimm x.irReg else x.rs1Data) with hv
  set e₀ : Soc σ := { e with mem := (bus.mipAt e.cycle e.mem).2 } with he₀
  have hx₀ : AtExecute c x e₀ := ⟨hx.executing, hx.wf, hx.mode, hx.mExt, hx.regs, hx.pc, hx.csr,
    hx.elapsed, hx.reservation, hx.written⟩
  set p : Bool × Soc σ := if Emu.csrWrites x.irReg then csrWritten e₀ (Emu.csrAddr x.irReg) v
    else (true, e₀) with hp
  set r : Retire := { Retire.default with cycles := 2 } with hr
  have hstep : e.stepRv bus x.irReg none .default =
      (p.2.writeRd (Emu.rd x.irReg) (x.csrRdata (inp 0)) r).1.retire (e.pc + 4#32) p.1
        (p.2.writeRd (Emu.rd x.irReg) (x.csrRdata (inp 0)) r).2 := by
    unfold Soc.stepRv
    dsimp only
    rw [if_neg (by rw [hill]; exact Bool.false_ne_true), emu_op, hop]
    dsimp only [Rtl.Opcode.toEmu]
    rw [if_neg hf3']
    rw [hp, ← hvalue, ← hread]
    rfl
  have hends := hx.executing.ends_simple hsoft ht (by simp [Rtl.Cpu.rvMuldiv, hop])
    (by simp [hop]) (by simp [hop]) (by simp [hop])
  have hfields : p.2.riscvMode = e.riscvMode ∧ p.2.mExt = e.mExt ∧ p.2.regs = e.regs ∧
      p.2.reservation = e.reservation := by
    rw [hp]
    split
    · unfold csrWritten
      split <;> exact ⟨rfl, rfl, rfl, rfl⟩
    · exact ⟨rfl, rfl, rfl, rfl⟩
  obtain ⟨hmode, hmExt, hregs, hresv⟩ := hfields
  obtain ⟨h1, h2, h3⟩ := writeRd_snd p.2 (Emu.rd x.irReg) (x.csrRdata (inp 0)) r
  rw [hstep]
  unfold Soc.retire
  rw [writeRd_fst]
  refine hx.agrees hends le_rfl h2 hmode hmExt ?_ ?_ ?_ (hresv.trans hx.reservation) h1 ?_ ?_
  · rw [hx.rvWriteback, hop, if_pos hf3, emu_rd, ← hregs]
  · rw [hx.executing.nextPc_of_none ht, hop, hx.pc]
  · have hwr : x.csrWr (inp 0) = if Emu.csrWrites x.irReg then some (Rtl.csrAddr x.irReg, v)
        else none := by
      rw [csrWrites_eq, Rtl.Cpu.csrWr, Rtl.Cpu.csrAccess, hx.executing.execRv, hop,
        hx.executing.trapEntry_of_none ht]
      simp [hv]
    rw [hwr]
    by_cases hwrites : Emu.csrWrites x.irReg = true
    · rw [if_pos hwrites] at hp ⊢
      have hcsr := hx₀.csr_written (Rtl.csrAddr x.irReg) v
      rw [← emu_csrAddr, ← hp] at hcsr
      exact hcsr
    · rw [if_neg hwrites] at hp ⊢
      have hcount := hx.csr_count 0
      rw [show x.csrs.elapse 0 = x.csrs by simp [Rtl.Csrs.elapse]] at hcount
      change _ = (x.csrs.count none true).toEmu
      rw [hcount, hp]
      unfold Soc.endStep
      change Emu.Csrs.mk _ _ _ _ _ _ _ (Option.getD e.mcycleWritten _) _ _ _ = _
      rw [hx.written]
      rfl
  · rw [h3]
    simp [cost, hop, hr, Retire.default]
  · rw [h3]
    simp [hr, Retire.default]

/-- ECALL, EBREAK, MRET and WFI. -/
theorem AtExecute.agrees_priv (hx : AtExecute c x e) (h : Legal x)
    (hop : Rtl.opcode x.irReg = .system) (hf3 : Rtl.funct3 x.irReg = 0#3)
    (hsoft : (inp 0).softRst = false) :
    Agrees inp x (e.stepRv bus x.irReg none .default).1 (e.stepRv bus x.irReg none .default).2 := by
  have hill := hx.rvIllegal.trans h.legal
  have huser : e.csr.user = x.csrs.privU := by
    rw [hx.csr, hx.elapsed]
    rfl
  have hf3' : Emu.funct3 x.irReg = 0#32 := by
    rw [emu_funct3, hf3]
    rfl
  have ht : x.trap = if Rtl.isEcall x.irReg then .entry (if x.csrs.privU then 8#32 else 11#32) 0#32
      else if Rtl.isEbreak x.irReg then .entry 3#32 x.pcReg
      else if Rtl.isMret x.irReg then .return else .none := by
    rw [Rtl.Cpu.trap, if_pos hx.executing.execRv, Rtl.trapUnit, h.irq, h.legal, Rtl.fetchMisalign,
      Rtl.memMisalign, hop]
    rfl
  have hstep : e.stepRv bus x.irReg none .default =
      if x.irReg = 0x00000073#32 then
        e.takeTrap (if e.csr.user then 8#32 else 11#32) 0#32 { Retire.default with cycles := 2 }
      else if x.irReg = 0x00100073#32 then e.takeTrap 3#32 e.pc { Retire.default with cycles := 2 }
      else if x.irReg = 0x30200073#32 then
        Soc.retire { e with csr := e.csr.mret } e.csr.mret.mepc true
          { Retire.default with cycles := 2 }
      else e.retire (e.pc + 4#32) true { Retire.default with cycles := 2 } := by
    unfold Soc.stepRv
    dsimp only
    rw [if_neg (by rw [hill]; exact Bool.false_ne_true), emu_op, hop]
    dsimp only [Rtl.Opcode.toEmu]
    rw [if_pos hf3']
  have hcsrWr : x.csrWr (inp 0) = none := by
    have hwrites : Rtl.isMret x.irReg = true ∨ Rtl.isWfi x.irReg = true ∨
        Rtl.isEcall x.irReg = true ∨ Rtl.isEbreak x.irReg = true := by
      have hleg := h.legal
      rw [Rtl.isIllegal, hop] at hleg
      dsimp only at hleg
      rw [if_pos hf3] at hleg
      by_contra hne
      simp only [not_or, Bool.not_eq_true] at hne
      rw [hne.1, hne.2.1, hne.2.2.1, hne.2.2.2] at hleg
      exact absurd hleg (by simp)
    have hnone : Rtl.csrWrites x.irReg = false := by
      unfold Rtl.isMret Rtl.isWfi Rtl.isEcall Rtl.isEbreak at hwrites
      simp only [decide_eq_true_eq] at hwrites
      rcases hwrites with h | h | h | h <;> rw [h] <;> rfl
    rw [Rtl.Cpu.csrWr, hnone, Bool.and_false, if_neg Bool.false_ne_true]
  rw [hstep]
  by_cases hecall : x.irReg = 0x00000073#32
  · rw [if_pos hecall, huser]
    refine hx.agrees_trap hsoft ?_ rfl
    rw [ht, if_pos (show Rtl.isEcall x.irReg = true from decide_eq_true hecall)]
  rw [if_neg hecall]
  rw [Rtl.isEcall, decide_eq_false hecall, if_neg Bool.false_ne_true] at ht
  by_cases hebreak : x.irReg = 0x00100073#32
  · rw [if_pos hebreak, hx.pc]
    refine hx.agrees_trap hsoft ?_ rfl
    rw [ht, if_pos (show Rtl.isEbreak x.irReg = true from decide_eq_true hebreak)]
  rw [if_neg hebreak]
  rw [Rtl.isEbreak, decide_eq_false hebreak, if_neg Bool.false_ne_true] at ht
  by_cases hmret : x.irReg = 0x30200073#32
  · rw [if_pos hmret]
    rw [if_pos (show Rtl.isMret x.irReg = true from decide_eq_true hmret)] at ht
    have hends := hx.executing.ends_return hsoft ht hop hf3 hcsrWr
    have hm : c.mstatus &&& Rtl.Csrs.mstatusMask = c.mstatus := by
      have := hx.wf.csrs.mstatus
      rw [hx.elapsed] at this
      exact this
    refine hx.agrees hends le_rfl rfl rfl rfl rfl ?_ ?_ hx.reservation rfl ?_
      (by simp [Soc.retire, Retire.default])
    · change e.csr.mepc = x.csrs.mepc
      rw [hx.csr, hx.elapsed]
      rfl
    · rw [hx.elapsed, Rtl.Csrs.count_none, Rtl.Csrs.elapse_elapse,
        Rtl.Csrs.toEmu_trapReturn (c := { c.elapse (1 + 1) with minstret := _ }) hm]
      unfold Soc.endStep
      change Emu.Csrs.mk _ _ _ _ _ _ _ (Option.getD e.mcycleWritten _) _ _ _ = _
      rw [hx.written, hx.csr]
      rfl
    · simp [cost, hop, Soc.retire, Retire.default]
  · rw [if_neg hmret]
    rw [Rtl.isMret, decide_eq_false hmret, if_neg Bool.false_ne_true] at ht
    exact hx.agrees_simple hsoft ht (by simp [Rtl.Cpu.rvMuldiv, hop]) (by simp [hop])
      (by simp [hop])
      (by simp [hop]) (w := none) (by rw [hx.rvWriteback, hop]; exact if_neg (by simp [hf3]))
      (by rw [hx.executing.nextPc_of_none ht, hop, hx.pc]) hcsrWr rfl rfl rfl

theorem two_le_cycles (e : Soc σ) (i : Word) (irq : Option Word) :
    2 ≤ (e.stepRv bus i irq .default).2.cycles := by
  have hwrite : ∀ (s : Soc σ) rd v next r, 2 ≤ r.cycles →
      2 ≤ ((s.writeRd rd v r).1.retire next true (s.writeRd rd v r).2).2.cycles := by
    intro s rd v next r hr
    rw [retire_writeRd, (writeRd_snd s rd v r).2.1]
    exact hr
  unfold Soc.stepRv
  split
  · exact le_rfl
  split
  · exact le_rfl
  dsimp only
  have hamo : ∀ r : Retire, 2 ≤ r.cycles → ∀ p : Soc σ × Retire, e.execAmo bus i r = .inr p →
      2 ≤ p.2.cycles := by
    intro r hr p hp
    unfold Soc.execAmo at hp
    dsimp only at hp
    split at hp
    · exact absurd hp (by simp)
    · split at hp
      · split at hp
        · obtain rfl := Sum.inr.inj hp
          rw [(writeRd_snd _ _ _ _).2.1]
          dsimp only
          omega
        · obtain rfl := Sum.inr.inj hp
          rw [(writeRd_snd _ _ _ _).2.1]
      all_goals
        obtain rfl := Sum.inr.inj hp
        rw [(writeRd_snd _ _ _ _).2.1]
        dsimp only
        omega
  split
  case h_10 =>
    split
    · exact le_rfl
    · rename_i hp
      have hcycles := hamo { Retire.default with cycles := 2 } le_rfl (_, _) hp
      exact hcycles
  case h_12 =>
    split
    · repeat' split
      all_goals exact le_rfl
    · change 2 ≤ (Soc.writeRd _ _ _ _).2.cycles
      rw [(writeRd_snd _ _ _ _).2.1]
  all_goals repeat' split
  all_goals first
    | exact le_rfl
    | exact hwrite _ _ _ _ _ le_rfl
    | exact hwrite _ _ _ _ _ (Nat.le_trans (by decide) (Nat.le_add_right 3 _))
    | exact hwrite _ _ _ _ _ (by decide)
    | exact Nat.le_trans (by decide) (Nat.le_add_right 3 _)

/-- **Any instruction, from EXECUTE on.** -/
theorem AtExecute.agrees_stepRv (hx : AtExecute c x e) (ha : Answers bus e.cycle e.mem inp x)
    {irq : Option Word} (hirq : irq = if x.rIrq then some x.rIrqCause else none)
    (hsoft : Undisturbed inp (e.stepRv bus x.irReg irq .default).2) :
    Agrees inp x (e.stepRv bus x.irReg irq .default).1 (e.stepRv bus x.irReg irq .default).2 := by
  cases hr : x.rIrq with
  | true =>
    rw [hr, if_pos rfl] at hirq
    subst hirq
    exact hx.agrees_trap (hsoft 0 Nat.one_pos) (trap_irq hx.executing hr) rfl
  | false =>
    rw [hr, if_neg Bool.false_ne_true] at hirq
    subst hirq
    have hill := hx.rvIllegal
    cases hl : Rtl.isIllegal x.irReg x.csrs.privU x.csrs.tw with
    | true =>
      have hstep : e.stepRv bus x.irReg none .default = e.takeTrap 2#32 x.irReg .default := by
        unfold Soc.stepRv
        dsimp only
        rw [if_pos (hill.trans hl)]
      rw [hstep] at hsoft ⊢
      exact hx.agrees_trap (hsoft 0 Nat.one_pos) (trap_illegal hx.executing hr hl) rfl
    | false =>
      have h : Legal x := ⟨hr, hl⟩
      have hfirst : (inp 0).softRst = false :=
        hsoft 0 (by have := two_le_cycles bus e x.irReg none; omega)
      cases hop : Rtl.opcode x.irReg with
      | rType => exact hx.agrees_rType bus h hop hsoft
      | iType => exact hx.agrees_iType bus h hop hfirst
      | load => exact hx.agrees_load bus h hop ha hsoft
      | store => exact hx.agrees_store bus h hop ha hsoft
      | branch => exact hx.agrees_branch bus h hop hfirst
      | jal => exact hx.agrees_jal bus h hop hfirst
      | jalr => exact hx.agrees_jalr bus h hop hfirst
      | lui => exact hx.agrees_lui bus h hop hfirst
      | auipc => exact hx.agrees_auipc bus h hop hfirst
      | system =>
        by_cases hf3 : Rtl.funct3 x.irReg = 0#3
        · exact hx.agrees_priv bus h hop hf3 hfirst
        · exact hx.agrees_csr bus h hop hf3 ha hfirst
      | fence => exact hx.agrees_fence bus h hop hfirst
      | amo => exact hx.agrees_amo bus h hop ha hsoft
      | other =>
        rw [Rtl.isIllegal, hop] at hl
        exact absurd hl (by simp)

end

/-! ## From FETCH to FETCH -/

section

variable {s : Cpu} {e : Soc σ} {inp : ℕ → CpuIn} {wf : ℕ}

/-- The EXECUTE of the instruction that a FETCH gets after `wf` waits. -/
def executing (s : Cpu) (i : CpuIn) (wf : ℕ) : Cpu :=
  { (s.idles (wf + 1)).quiet with
    irReg := i.instrIn
    pcPlus4Reg := s.pcReg + 4#32
    rIrq := s.csrs.irqPending i.lines
    rIrqCause := s.csrs.irqCause i.lines
    state := .execute }

theorem tick_fetched {i : CpuIn} (hr : s.isRiscvMode = true) (hf : s.state = .fetch)
    (hsoft : i.softRst = false) (hready : i.instrReady = true) :
    (s.idles wf).tick i = executing s i wf := by
  rw [Rtl.Cpu.tick, if_neg (by simp [hsoft]), Rtl.Cpu.tickUnits_idle (s := s.idles wf) hr
    (by change s.state ≠ _; simp [hf]) hsoft
    (by simp [Rtl.Cpu.rvWriteback, Rtl.Cpu.idles, hf])
    (by simp [Rtl.Cpu.rvRetire, Rtl.Cpu.idles, hf, Rtl.Cpu.execRv]), Rtl.Cpu.tickState,
    show (s.idles wf).state = .fetch from hf, Rtl.Cpu.idles_idles]
  dsimp only
  rw [if_pos hready, executing, show (s.idles wf).isRiscvMode = true from hr]
  simp only [Bool.and_true]
  rfl

theorem run_fetch (hr : s.isRiscvMode = true) (hf : s.state = .fetch)
    (hwait : ∀ k < wf, (inp k).instrReady = false) (hsoft : ∀ k < wf, (inp k).softRst = false) :
    ∀ k ≤ wf, run inp s k = s.idles k :=
  Rtl.Cpu.run_idles fun k hk ↦
    Rtl.Cpu.tick_fetch_wait (s := s.idles k) hr hf (hsoft k hk) (hwait k hk)

theorem observe_fetch (hr : s.isRiscvMode = true) (hf : s.state = .fetch)
    (hwait : ∀ k < wf, (inp k).instrReady = false) (hready : (inp wf).instrReady = true)
    (hsoft : ∀ k < wf, (inp k).softRst = false) :
    stores inp s (wf + 1) = [] ∧ waits inp s (wf + 1) = wf := by
  have hrun := run_fetch hr hf hwait hsoft
  have hst : ∀ k, (s.idles k).storeReq = none := fun k ↦
    Rtl.Cpu.storeReq_of_state (s := s.idles k) hr (by change s.state ≠ _; simp [hf])
  have hw : ∀ k (i : CpuIn), Rtl.Cpu.waiting i (s.idles k) = !i.instrReady := by
    intro k i
    simp [Rtl.Cpu.waiting, Rtl.Cpu.dataReq, Rtl.Cpu.idles, hf, hr]
  have hobs : ∀ k ≤ wf, stores inp s k = [] ∧ waits inp s k = k := by
    intro k hk
    induction k with
    | zero => exact ⟨rfl, rfl⟩
    | succ k ih =>
      obtain ⟨ih₁, ih₂⟩ := ih (by omega)
      rw [stores, waits, ih₁, ih₂, hrun k (by omega), hst, hw, hwait k (by omega)]
      simp
  obtain ⟨h₁, h₂⟩ := hobs wf le_rfl
  rw [stores, waits, h₁, h₂, hrun wf le_rfl, hst, hw, hready]
  simp

/-- The instruction in EXECUTE, as `step` sees it once its FETCH has waited. -/
theorem Corresponds.atExecute (hc : Corresponds s e) {i : CpuIn}
    (hwf : (executing s i wf).Wf) :
    AtExecute (s.csrs.elapse wf) (executing s i wf) (e.afterWait wf) where
  executing := ⟨rfl, hc.riscv, rfl⟩
  wf := hwf
  mode := hc.mode
  mExt := hc.mExt
  regs := hc.regs
  pc := hc.pc
  csr := by
    unfold Soc.afterWait
    rw [hc.csr]
    rfl
  elapsed := (Rtl.Csrs.elapse_elapse _ _ _).symm
  reservation := hc.reservation
  written := hc.written

/-- **The RTL CPU executes RV32IMA as the emulator's `step_rv`.**  From any reachable FETCH of an
RV32 instruction, over any waits of the fetch and of the data side, with any instruction and
interrupt. -/
theorem rtl_executes_as_step_rv (bus : Bus σ) (hs : s.Reachable) (hf : s.state = .fetch)
    (hc : Corresponds s e) (hwait : ∀ k < wf, (inp k).instrReady = false)
    (hready : (inp wf).instrReady = true)
    (ha : Answers bus (e.cycle + wf) e.mem (fun k ↦ inp (wf + 1 + k)) (run inp s (wf + 1)))
    {p : Soc σ × Retire} (hp : (e.afterWait wf).stepRv bus (inp wf).instrIn
      (e.csr.pendingInterrupt (inp wf).lines.mip) .default = p)
    (hsoft : ∀ k < wf + p.2.cycles, (inp k).softRst = false) :
    (∀ k ≤ wf, (run inp s k).state = .fetch) ∧
      (∀ k, wf < k → k < wf + p.2.cycles → (run inp s k).state ≠ .fetch) ∧
      (run inp s (wf + p.2.cycles)).state = .fetch ∧
      Corresponds (run inp s (wf + p.2.cycles)) (p.1.endStep p.2.cycles) ∧
      stores inp s (wf + p.2.cycles) = p.2.store.toList ∧
      wf + p.2.cycles = waits inp s (wf + p.2.cycles) +
        cost (inp wf).instrIn p.2.trap.isSome (!(run inp s (wf + 1)).amoScOk) ∧
      (p.2.trap.isSome = true → Kept s (run inp s (wf + p.2.cycles)) ∧
        ∀ k < wf + p.2.cycles, (run inp s k).dataReq = false) := by
  have htwo := two_le_cycles bus (e.afterWait wf) (inp wf).instrIn
    (e.csr.pendingInterrupt (inp wf).lines.mip)
  rw [hp] at htwo
  have hrun := run_fetch hc.riscv hf hwait fun k hk ↦ hsoft k (by omega)
  have hx : run inp s (wf + 1) = executing s (inp wf) wf := by
    rw [run, hrun wf le_rfl, tick_fetched hc.riscv hf (hsoft wf (by omega)) hready]
  have hat := hc.atExecute (hx ▸ (hs.run inp (wf + 1)).wf)
  have hirq : e.csr.pendingInterrupt (inp wf).lines.mip =
      if (executing s (inp wf) wf).rIrq then some (executing s (inp wf) wf).rIrqCause
        else none := by
    rw [hc.csr, Rtl.Csrs.toEmu_pendingInterrupt]
    rfl
  rw [hx] at ha
  have hagrees := hat.agrees_stepRv bus ha hirq fun k hk ↦ hsoft _ (by
    change k < ((e.afterWait wf).stepRv bus (inp wf).instrIn _ _).2.cycles - 1 at hk
    rw [hp] at hk
    omega)
  change Agrees _ _ ((e.afterWait wf).stepRv bus (inp wf).instrIn _ _).1
    ((e.afterWait wf).stepRv bus (inp wf).instrIn _ _).2 at hagrees
  rw [hp] at hagrees
  obtain ⟨hst, hwt⟩ := observe_fetch hc.riscv hf hwait hready fun k hk ↦ hsoft k (by omega)
  have hlen : wf + p.2.cycles = wf + 1 + (p.2.cycles - 1) := by omega
  have hend : run inp s (wf + p.2.cycles) =
      run (fun k ↦ inp (wf + 1 + k)) (executing s (inp wf) wf) (p.2.cycles - 1) := by
    rw [hlen, Rtl.Cpu.run_add, hx]
  have hfetch : ∀ k ≤ wf, (run inp s k).state = .fetch := by
    intro k hk
    rw [hrun k hk]
    exact hf
  refine ⟨hfetch, ?_, ?_, ?_, ?_, ?_, ?_⟩
  · intro k hlo hhi
    obtain ⟨j, rfl⟩ := Nat.exists_eq_add_of_le (show wf + 1 ≤ k from hlo)
    rw [Rtl.Cpu.run_add, hx]
    exact hagrees.busy j (by omega)
  · rw [hend]
    exact hagrees.state
  · rw [hend]
    exact hagrees.corresponds
  · rw [hlen, Rtl.Cpu.stores_add, hst, hx, List.nil_append]
    exact hagrees.stores
  · have hcost := hagrees.cost
    rw [hx]
    rw [hlen, Rtl.Cpu.waits_add, hwt, hx]
    change p.2.cycles = _ + cost (inp wf).instrIn _ _ at hcost
    omega
  · intro htrap
    obtain ⟨hkept, -, htwo'⟩ := hagrees.kept htrap
    rw [hend]
    refine ⟨⟨hkept.registers, hkept.mie, hkept.mtvec, hkept.mscratch, hkept.minstret,
      hkept.mstatus⟩, ?_⟩
    intro k hk
    rcases Nat.lt_or_ge wf k with hlt | hle
    · rw [show k = wf + 1 by omega, hx]
      simp [Rtl.Cpu.dataReq, executing, Rtl.Cpu.quiet, Rtl.Cpu.idles, hc.riscv]
    · rw [hrun k hle]
      simp [Rtl.Cpu.dataReq, Rtl.Cpu.idles, hc.riscv, hf]

/-- A bus on which every store waits a cycle. -/
def slowBus : Bus Unit where
  fetch := fun _ _ m ↦ ((0#32, 0), m)
  loadWait := fun _ m ↦ (0, m)
  readWord := fun _ _ m ↦ (0#32, m)
  write := fun _ _ _ _ m ↦ (1, m)
  hackRead := fun _ _ m ↦ ((0#32, 0), m)
  hackWrite := fun _ _ _ m ↦ (0, m)
  mipAt := fun _ m ↦ (0#32, m)
  mtime := fun _ _ ↦ 0#64

/-- The emulator after `reset`. -/
def resetSoc : Soc Unit where
  cycle := 0
  regs := fun _ ↦ 0#32
  pc := 0#32
  csr := .default
  riscvMode := true
  mExt := true
  reservation := none
  mcycleWritten := none
  mem := ()

/-- `sw x0, 0(x0)` after a FETCH that waits a cycle, on a data side that waits a cycle. -/
def swInputs (k : ℕ) : CpuIn where
  softRst := false
  bootModeValid := false
  bootMode := false
  instrIn := 0x00002023#32
  instrReady := 1 ≤ k
  dataIn := 0#32
  dataReady := 4 ≤ k
  lines := ⟨false, false, false⟩
  mtime := 0#64

theorem rtl_executes_sw :
    (run swInputs (Cpu.powerOn fun _ ↦ 0#32) 5).state = .fetch ∧
      stores swInputs (Cpu.powerOn fun _ ↦ 0#32) 5 = [(0#32, 0#32, 0b1111#4)] := by
  have h := @rtl_executes_as_step_rv _ _ resetSoc swInputs 1 slowBus (.powerOn fun _ ↦ 0#32) rfl
    ⟨rfl, rfl, rfl, fun q ↦ by unfold Rtl.Cpu.reg; split <;> rfl, rfl, rfl, rfl, rfl⟩
    (by decide) rfl
    ⟨fun hop ↦ absurd hop (by decide), fun hop ↦ absurd hop (by decide), fun _ hload ↦
      absurd hload (by decide), fun _ _ _ _ ↦ ⟨fun k hk ↦ by
        rw [Nat.lt_one_iff.mp hk]
        rfl, rfl⟩, fun _ hload ↦
      absurd hload (by decide)⟩ _ rfl (fun _ _ ↦ rfl)
  exact ⟨h.2.2.1, h.2.2.2.2.1⟩

end

end Vux9k
